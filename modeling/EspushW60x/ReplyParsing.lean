import EspushW60x.Bootstrap

/-!
# The bootstrap reply

`parse_response` copies the three fields of a reply into `*addr`. `JsonValue` is
what `cJSON` may return for a field: only a string has a `valuestring`, and every
item has a `valueint`, whatever its type.

Results:
* `int8_eq_self`, `uint16_eq_self`: the values that the two narrowing stores keep;
* `run_parseResponse_parsed`, `run_parseResponse_failed`: the two exits of
  `parse_response`, with every access;
* `parse_response_faithful`: the replies on which `parse_response` stays inside
  `*addr` and stores exactly what the reply says.
-/

namespace EspushW60x

open Lib BootstrapLemmas

/-! ## Replies -/

/-- A value of a JSON tree. The text of a string ends at its NUL. -/
inductive JsonValue
  | string (s : Bytes) (noNul : (0 : UInt8) ∉ s) (valueint : Int)
  | number (valueint : Int)
  | boolean (b : Bool)
  /-- null, an array or an object -/
  | other (valueint : Int)

/-- The item that `cJSON_Parse` makes of a value. `parse_value` stores 1 for `true`. -/
def JsonValue.item : JsonValue → JsonItem
  | .string s _ v => ⟨some s, v⟩
  | .number v => ⟨none, v⟩
  | .boolean b => ⟨none, if b then 1 else 0⟩
  | .other v => ⟨none, v⟩

/-- The value as a text. -/
def JsonValue.text : JsonValue → Option Bytes
  | .string s _ _ => some s
  | _ => none

/-- The value as a number. -/
def JsonValue.numeric : JsonValue → Option Int
  | .number v => some v
  | .boolean b => some (if b then 1 else 0)
  | _ => none

/-- What `cJSON_Parse` returns: NULL or a tree, as its fields. -/
abbrev JsonReply := Option (String → Option JsonValue)

/-- The reply as `parse_response` sees it. -/
def JsonReply.root (reply : JsonReply) : Option JsonObject :=
  reply.map fun fields name => (fields name).map JsonValue.item

/-- The field of a reply under a name. -/
def JsonReply.field (reply : JsonReply) (name : String) : Option JsonValue :=
  reply.bind fun fields => fields name

/-! ## The two sides of the comparison -/

/-- One run of `parse_response` on `*addr`: it stayed inside `*addr` and never went
through NULL, and it either stored what the reply says or changed nothing. -/
structure FaithfulParse (reply : JsonReply) (addr : ServerAddress) (m : Mem)
    (r : (Int × ServerAddress) × Mem) : Prop where
  inside : m.AccessesInside r.2
  rc : r.1.1 = 0 ∨ r.1.1 = -1
  host : r.1.1 = 0 → ∃ s, (reply.field "address").bind JsonValue.text = some s ∧
    s.length ≤ maxHostString - 1 ∧ r.1.2.host.take (s.length + 1) = s ++ [0]
  port : r.1.1 = 0 → (reply.field "port").bind JsonValue.numeric = some (r.1.2.port : Int)
  useTls : r.1.1 = 0 → (reply.field "use_tls").bind JsonValue.numeric = some r.1.2.useTls
  unchanged : r.1.1 = -1 → r.1.2 = addr

/-- The three fields, when the reply has all of them, fit into `struct _server_addr_s`. -/
def ReplyFits (reply : JsonReply) : Prop :=
  ∀ address port tls, reply.field "address" = some address → reply.field "port" = some port →
    reply.field "use_tls" = some tls →
    (∃ s, address.text = some s ∧ s.length < maxHostString) ∧
      (∃ v, port.numeric = some v ∧ 0 ≤ v ∧ v < 0x10000) ∧
      (∃ v, tls.numeric = some v ∧ -0x80 ≤ v ∧ v < 0x80)

/-! ## The narrowing stores -/

theorem int8_eq_self (v : Int) : int8 v = v ↔ -0x80 ≤ v ∧ v < 0x80 := by
  unfold int8
  split <;> omega

theorem uint16_eq_self (v : Int) : ((v % 0x10000).toNat : Int) = v ↔ 0 ≤ v ∧ v < 0x10000 := by
  omega

namespace ReplyParsingLemmas

variable {reply : JsonReply} {address port tls : JsonValue} {addr : ServerAddress} {m : Mem}

theorem valuestring_item (v : JsonValue) : v.item.valuestring = v.text := by
  cases v <;> rfl

theorem valueint_item {v : JsonValue} {n : Int} (h : v.numeric = some n) :
    v.item.valueint = n := by
  cases v with
  | string => cases h
  | number => exact Option.some.inj h
  | boolean => exact Option.some.inj h
  | other => cases h

variable (addr m) in
/-- `parse_response` on a reply with the three fields. -/
theorem run_parseResponse_parsed (ha : reply.field "address" = some address)
    (hp : reply.field "port" = some port) (ht : reply.field "use_tls" = some tls) :
    (parseResponse reply.root addr).run m =
      ((0,
        { host := patch (patch addr.host 0 (address.text.getD [])) (address.text.getD []).length [0]
          port := (port.item.valueint % 0x10000).toNat
          useTls := int8 tls.item.valueint }),
        { heap := (m.heap.acquire .jsonTree).release m.heap.next
          log := copyAccesses address.text ++ m.log }) := by
  cases reply with
  | none => cases ha
  | some fields =>
    have ha' : fields "address" = some address := ha
    have hp' : fields "port" = some port := hp
    have ht' : fields "use_tls" = some tls := ht
    have hroot {name : String} {v : JsonValue} (h : fields name = some v) :
        (fun name => (fields name).map JsonValue.item) name = some v.item :=
      congrArg (Option.map JsonValue.item) h
    rw [← valuestring_item address]
    exact run_parseResponse_fields addr m (hroot ha') (hroot hp') (hroot ht')

variable (addr m) in
/-- `parse_response` on any other reply. -/
theorem run_parseResponse_failed
    (h : reply.field "address" = none ∨ reply.field "port" = none ∨
      reply.field "use_tls" = none) :
    ((parseResponse reply.root addr).run m).1 = (-1, addr) ∧
      ((parseResponse reply.root addr).run m).2.log = m.log := by
  cases reply with
  | none => exact ⟨rfl, rfl⟩
  | some fields =>
    simp only [JsonReply.field, Option.bind_some] at h
    cases ha : fields "address" with
    | none => simp [parseResponse, JsonReply.root, ha]
    | some address =>
      cases hp : fields "port" with
      | none => simp [parseResponse, JsonReply.root, ha, hp]
      | some port =>
        cases ht : fields "use_tls" with
        | none => simp [parseResponse, JsonReply.root, ha, hp, ht]
        | some tls =>
          rw [ha, hp, ht] at h
          rcases h with h | h | h <;> cases h

/-- The host field after a string that fits was copied into it. -/
theorem host_copied {host s : Bytes} (hhost : host.length = maxHostString)
    (hs : s.length < maxHostString) :
    (patch (patch host 0 s) s.length [0]).take (s.length + 1) = s ++ [0] := by
  have h0 : 0 + s.length ≤ host.length := by omega
  have hfit : s.length + [(0 : UInt8)].length ≤ (patch host 0 s).length := by
    rw [length_patch, hhost]
    exact hs
  have hcopy := take_patch h0
  rw [Nat.zero_add, List.take_zero, List.nil_append] at hcopy
  have hnul := take_patch hfit
  rw [hcopy] at hnul
  exact hnul

/-- A reply without one of the fields is always handled faithfully. -/
theorem faithful_failed
    (h : reply.field "address" = none ∨ reply.field "port" = none ∨
      reply.field "use_tls" = none) :
    FaithfulParse reply addr m ((parseResponse reply.root addr).run m) := by
  obtain ⟨hr, hlog⟩ := run_parseResponse_failed addr m h
  have hrc : ((parseResponse reply.root addr).run m).1.1 = -1 := by rw [hr]
  have hfail : ¬ ((parseResponse reply.root addr).run m).1.1 = 0 := by rw [hrc]; decide
  exact
    { inside := ⟨[], hlog, List.forall_mem_nil _⟩
      rc := .inr hrc
      host := fun h0 => absurd h0 hfail
      port := fun h0 => absurd h0 hfail
      useTls := fun h0 => absurd h0 hfail
      unchanged := fun _ => by rw [hr] }

/-- The fields of a reply that has them and was handled faithfully. -/
theorem fits_of_faithful (ha : reply.field "address" = some address)
    (hp : reply.field "port" = some port) (ht : reply.field "use_tls" = some tls)
    (hf : FaithfulParse reply addr m ((parseResponse reply.root addr).run m)) :
    (∃ s, address.text = some s ∧ s.length < maxHostString) ∧
      (∃ v, port.numeric = some v ∧ 0 ≤ v ∧ v < 0x10000) ∧
      (∃ v, tls.numeric = some v ∧ -0x80 ≤ v ∧ v < 0x80) := by
  have hrun := run_parseResponse_parsed addr m ha hp ht
  have hrc : ((parseResponse reply.root addr).run m).1.1 = 0 := by rw [hrun]
  refine ⟨?_, ?_, ?_⟩
  · have hin := hf.inside
    rw [hrun, Mem.accessesInside_iff rfl] at hin
    exact (copyAccesses_inside _).mp hin
  · have hport : port.numeric = some ((port.item.valueint % 0x10000).toNat : Int) := by
      have h := hf.port hrc
      rwa [hrun, hp] at h
    have hv := valueint_item hport
    rw [← hv] at hport
    exact ⟨_, hport, (uint16_eq_self _).mp hv.symm⟩
  · have htls : tls.numeric = some (int8 tls.item.valueint) := by
      have h := hf.useTls hrc
      rwa [hrun, ht] at h
    have hv := valueint_item htls
    rw [← hv] at htls
    exact ⟨_, htls, (int8_eq_self _).mp hv.symm⟩

/-- A reply whose fields fit is handled faithfully. -/
theorem faithful_of_fits {s : Bytes} {p t : Int} (hhost : addr.host.length = maxHostString)
    (ha : reply.field "address" = some address) (hp : reply.field "port" = some port)
    (ht : reply.field "use_tls" = some tls)
    (hs : address.text = some s ∧ s.length < maxHostString)
    (hport : port.numeric = some p ∧ 0 ≤ p ∧ p < 0x10000)
    (htls : tls.numeric = some t ∧ -0x80 ≤ t ∧ t < 0x80) :
    FaithfulParse reply addr m ((parseResponse reply.root addr).run m) := by
  have hlen : s.length ≤ maxHostString - 1 := Nat.le_pred_of_lt hs.2
  rw [run_parseResponse_parsed addr m ha hp ht]
  exact
    { inside := (Mem.accessesInside_iff rfl).mpr ((copyAccesses_inside _).mpr ⟨s, hs⟩)
      rc := .inl rfl
      host := fun _ => by
        refine ⟨s, by rw [ha]; exact hs.1, hlen, ?_⟩
        rw [hs.1]
        exact host_copied hhost hs.2
      port := fun _ => by
        rw [hp, valueint_item hport.1, (uint16_eq_self p).mpr hport.2]
        exact hport.1
      useTls := fun _ => by
        rw [ht, valueint_item htls.1, (int8_eq_self t).mpr htls.2]
        exact htls.1
      unchanged := fun h => by cases h }

end ReplyParsingLemmas

open ReplyParsingLemmas

/-- `parse_response` takes the type of the address for granted, and neither bounds the
copy of it nor checks the range of the numbers. -/
theorem parse_response_faithful (reply : JsonReply) (addr : ServerAddress) (m : Mem)
    (hhost : addr.host.length = maxHostString) :
    FaithfulParse reply addr m ((parseResponse reply.root addr).run m) ↔ ReplyFits reply := by
  constructor
  · exact fun hf address port tls ha hp ht => fits_of_faithful ha hp ht hf
  · intro hfits
    cases ha : reply.field "address" with
    | none => exact faithful_failed (.inl ha)
    | some address =>
      cases hp : reply.field "port" with
      | none => exact faithful_failed (.inr (.inl hp))
      | some port =>
        cases ht : reply.field "use_tls" with
        | none => exact faithful_failed (.inr (.inr ht))
        | some tls =>
          obtain ⟨⟨s, hs⟩, ⟨p, hport⟩, t, htls⟩ := hfits address port tls ha hp ht
          exact faithful_of_fits hhost ha hp ht hs hport htls

/-- A reply with the given address and port, and TLS off. -/
def replyOf (address : JsonValue) (port : Int) : JsonReply :=
  some fun name =>
    if name = "address" then some address
    else if name = "port" then some (.number port)
    else if name = "use_tls" then some (.number 0)
    else none

theorem parse_response_faithful_short_host :
    FaithfulParse (replyOf (.string [0x61, 0x62] (by decide) 0) 8000)
      ⟨List.replicate 32 0, 0, 0⟩ .empty
      ((parseResponse (replyOf (.string [0x61, 0x62] (by decide) 0) 8000).root
        ⟨List.replicate 32 0, 0, 0⟩).run .empty) := by
  refine (parse_response_faithful _ _ _ (by decide)).mpr fun address port tls ha hp ht => ?_
  cases ha
  cases hp
  cases ht
  exact ⟨⟨_, rfl, by decide⟩, ⟨_, rfl, by decide⟩, ⟨_, rfl, by decide⟩⟩

/-- An address that is a number is read through NULL, one of 32 bytes is stored past
the end of `host`, and port 65616 is stored as 80. -/
theorem unfaithful_replies :
    (¬ FaithfulParse (replyOf (.number 5) 80) ⟨List.replicate 32 0, 0, 0⟩ .empty
      ((parseResponse (replyOf (.number 5) 80).root ⟨List.replicate 32 0, 0, 0⟩).run .empty)) ∧
    (¬ FaithfulParse (replyOf (.string (List.replicate 32 0x61) (by decide) 0) 80)
      ⟨List.replicate 32 0, 0, 0⟩ .empty
      ((parseResponse (replyOf (.string (List.replicate 32 0x61) (by decide) 0) 80).root
        ⟨List.replicate 32 0, 0, 0⟩).run .empty)) ∧
    ¬ FaithfulParse (replyOf (.string [0x61, 0x62] (by decide) 0) 65616)
      ⟨List.replicate 32 0, 0, 0⟩ .empty
      ((parseResponse (replyOf (.string [0x61, 0x62] (by decide) 0) 65616).root
        ⟨List.replicate 32 0, 0, 0⟩).run .empty) := by
  refine ⟨fun h => ?_, fun h => ?_, fun h => ?_⟩
  · obtain ⟨s, hs, -⟩ := (fits_of_faithful rfl rfl rfl h).1
    cases hs
  · obtain ⟨s, hs, hlen⟩ := (fits_of_faithful rfl rfl rfl h).1
    cases hs
    exact absurd hlen (by decide)
  · obtain ⟨v, hv, -, hlt⟩ := (fits_of_faithful rfl rfl rfl h).2.1
    cases hv
    exact absurd hlt (by decide)

end EspushW60x
