import EspushW60x.Protoframe

/-!
# `bootstrap.c`: where the cloud server is

`bootstrap` asks a web service for the address of the cloud server. The answers of
the web client and of `cJSON` come from outside: an `Outside` is one pattern of
them, together with the answers of the resolver, of `connect` and of `select` that
the rest of a session asks for.

Results:
* `bootstrap_rc`: the return code of `bootstrap` in terms of those answers;
* `bootstrap_heap`: what `bootstrap` leaves behind. The reply text is freed only
  when `parse_response` succeeds, the JSON tree only when it has all three fields;
* `bootstrap_inside`: the replies on which `bootstrap` stays inside the objects that
  it reads and writes. The copy of the address is not bounded.
-/

namespace EspushW60x

open Lib

/-! ## Answers from outside -/

/-- A value in a JSON tree. `valuestring` is NULL for everything but strings. -/
structure JsonItem where
  valuestring : Option Bytes
  valueint : Int
deriving DecidableEq, Repr

/-- What `cJSON_GetObjectItem` finds under a name. -/
abbrev JsonObject := String → Option JsonItem

/-- What happens next in the select loop. -/
inductive SessionEvent
  | heart
  | select (event : SelectEvent)
deriving DecidableEq, Repr

/-- `struct _server_addr_s`; `host` has `MAX_HOST_STRING` bytes. It is what the struct
holds as long as nothing is stored past the end of `host`. -/
structure ServerAddress where
  host : Bytes
  port : Nat
  useTls : Int
deriving DecidableEq, Repr

structure Outside where
  /-- `webclient_session_create` succeeds. -/
  sessionCreated : Bool
  /-- `webclient_get`: an HTTP status, or a negative error. -/
  get : Int
  /-- `webclient_response`: the length of the reply text, or a negative error. -/
  response : Int
  /-- `cJSON_Parse` of the reply text. -/
  json : Option JsonObject
  /-- `gethostbyname` of a name, in the `i`-th attempt. -/
  dns : Bytes → Nat → Option Nat
  /-- `connect` to an address and port, in the `i`-th attempt. -/
  connect : Nat × Nat → Nat → Int
  /-- The events of the select loop. After the last one `select` fails. -/
  events : List SessionEvent
  /-- `tls_get_mac_addr` -/
  mac : Fin 6 → UInt8
  /-- The indeterminate content of `sock_task`'s local `addr`. -/
  staleAddr : ServerAddress

/-! ## `parse_response` -/

def maxHostString : Nat := 32
def responseAuthorizationFail : Int := -2

/-- A handle that some library made: it goes into the ledger. -/
def acquireHandle (k : Kind) : Prog Mem Nat :=
  fun m => (m.heap.next, { m with heap := m.heap.acquire k })

@[simp] theorem run_acquireHandle (k : Kind) (m : Mem) :
    (acquireHandle k).run m = (m.heap.next, { m with heap := m.heap.acquire k }) := by rfl

/-- `int` to `int8`. -/
def int8 (i : Int) : Int := if i % 0x100 < 0x80 then i % 0x100 else i % 0x100 - 0x100

/-- The two copies and the NUL are stored as far as they fit. Nothing is known of what
the source does after a store that does not fit, or a read through NULL: `bootstrap_inside`
is about these accesses. -/
def parseResponse (root : Option JsonObject) (addr : ServerAddress) :
    Prog Mem (Int × ServerAddress) := do
  match root with
  | none => return (-1, addr)
  | some root =>
    let tree ← acquireHandle .jsonTree
    match root "address" with
    | none => return (-1, addr)
    | some jAddress =>
      match root "port" with
      | none => return (-1, addr)
      | some jPort =>
        match root "use_tls" with
        | none => return (-1, addr)
        | some jTls =>
          -- `strlen` and `memcpy` read the string and its NUL, or through NULL
          let string := jAddress.valuestring.getD []
          let hostLength := string.length
          touch .hostString (jAddress.valuestring.map fun s => s.length + 1) 0 (hostLength + 1)
          touch .host (some maxHostString) 0 hostLength
          let host := patch addr.host 0 string
          touch .host (some maxHostString) hostLength 1
          let host := patch host hostLength [0]
          espushFree tree
          return (0,
            { host := host, port := (jPort.valueint % 0x10000).toNat, useTls := int8 jTls.valueint })

/-! ## `webclient_request2`, `bootstrap` -/

/-- A GET request: the return code, `*response` and `*rsp_code`. -/
def webclientRequest2 (o : Outside) : Prog Mem (Int × Option Nat × Int) := do
  if ¬ o.sessionCreated then
    return (-1, none, 0)
  let rspCode := o.get
  if rspCode ≠ 200 then
    return (-1, none, rspCode)
  let totleLength := o.response
  if totleLength ≤ 0 then
    return (-1, none, rspCode)
  let response ← acquireHandle .replyText
  return (totleLength, some response, rspCode)

def bootstrap (o : Outside) (addr : ServerAddress) : Prog Mem (Int × ServerAddress) := do
  let r ← webclientRequest2 o
  if r.1 < 0 then
    if r.2.2 ≠ 0 then
      return (responseAuthorizationFail, addr)
    return (r.1, addr)
  let p ← parseResponse o.json addr
  if p.1 < 0 then
    return p
  match r.2.1 with
  | some result => espushFree result
  | none => pure ()
  return (0, p.2)

/-! ## Outcomes -/

/-- A reply text was read. -/
def ReplyRead (o : Outside) : Prop := o.sessionCreated = true ∧ o.get = 200 ∧ 0 < o.response

instance (o : Outside) : Decidable (ReplyRead o) := inferInstanceAs (Decidable (_ ∧ _ ∧ _))

/-- The reply is an object with the three fields. -/
def ReplyParses (o : Outside) : Prop :=
  match o.json with
  | none => False
  | some root =>
    (root "address").isSome = true ∧ (root "port").isSome = true ∧ (root "use_tls").isSome = true

instance (o : Outside) : Decidable (ReplyParses o) := by
  unfold ReplyParses
  split <;> infer_instance

/-- The `valuestring` of the address in the reply. -/
def addressString (o : Outside) : Option Bytes :=
  (o.json.bind fun root => root "address").bind JsonItem.valuestring

/-- The address in the reply is a string, and `host` has room for it and its NUL. -/
def AddressFits (o : Outside) : Prop :=
  ∃ s, addressString o = some s ∧ s.length < maxHostString

/-- The requests that fail with a non-zero `rsp_code`. -/
def RequestMarked (o : Outside) : Prop :=
  o.sessionCreated = true ∧ o.get ≠ 0 ∧ (o.get ≠ 200 ∨ o.response ≤ 0)

instance (o : Outside) : Decidable (RequestMarked o) :=
  inferInstanceAs (Decidable (_ ∧ _ ∧ (_ ∨ _)))

namespace BootstrapLemmas

variable {o : Outside} {addr : ServerAddress} {m : Mem}

/-- The accesses of a successful `parse_response`, newest first. -/
def copyAccesses (string : Option Bytes) : List Access :=
  [⟨.host, some maxHostString, (string.getD []).length, 1⟩,
    ⟨.host, some maxHostString, 0, (string.getD []).length⟩,
    ⟨.hostString, string.map fun s => s.length + 1, 0, (string.getD []).length + 1⟩]

/-- The copy stays inside exactly when there is a string and it leaves room for its NUL. -/
theorem copyAccesses_inside (string : Option Bytes) :
    (∀ a ∈ copyAccesses string, a.InBounds) ↔
      ∃ s, string = some s ∧ s.length < maxHostString := by
  constructor
  · intro hin
    have hnul := hin _ (List.mem_cons_self ..)
    have hread := hin ⟨.hostString, string.map fun s => s.length + 1, 0,
      (string.getD []).length + 1⟩ (by simp [copyAccesses])
    cases string with
    | none =>
      rcases hread.2 with h | h
      · exact absurd h (by decide)
      · exact absurd h.2 (by decide)
    | some s =>
      refine ⟨s, rfl, ?_⟩
      have hlen : (maxHostString : Int) = 32 := rfl
      simp only [Access.InBounds, Option.getD_some] at hnul
      omega
  · rintro ⟨s, rfl, hs⟩ a ha
    simp only [copyAccesses, List.mem_cons, List.not_mem_nil, or_false, Option.getD_some,
      Option.map_some] at ha
    rcases ha with rfl | rfl | rfl
    · exact Access.inBounds_of_le (Int.natCast_nonneg _) (by decide) (by omega)
    · exact Access.inBounds_of_le (by decide) (Int.natCast_nonneg _) (by omega)
    · exact Access.inBounds_of_le (by decide) (by omega) (by omega)

variable (addr m) in
/-- `parse_response` on an object with the three fields. -/
theorem run_parseResponse_fields {root : JsonObject} {jAddress jPort jTls : JsonItem}
    (ha : root "address" = some jAddress) (hp : root "port" = some jPort)
    (ht : root "use_tls" = some jTls) :
    (parseResponse (some root) addr).run m =
      ((0,
        { host := patch (patch addr.host 0 (jAddress.valuestring.getD []))
            (jAddress.valuestring.getD []).length [0]
          port := (jPort.valueint % 0x10000).toNat
          useTls := int8 jTls.valueint }),
        { heap := (m.heap.acquire .jsonTree).release m.heap.next
          log := copyAccesses jAddress.valuestring ++ m.log }) := by
  simp only [parseResponse, ha, hp, ht, Prog.run_bind, run_acquireHandle, run_touch,
    run_espushFree, Prog.run_pure]
  rfl

theorem replyParses_some {root : JsonObject} (h : o.json = some root) :
    ReplyParses o ↔ (root "address").isSome = true ∧ (root "port").isSome = true ∧
      (root "use_tls").isSome = true := by
  rw [ReplyParses, h]

variable (o addr m) in
/-- `parse_response` succeeds exactly on an object with the three fields, and copies the
address and frees the tree only then. -/
theorem parseResponse_result :
    (((parseResponse o.json addr).run m).1.1 = if ReplyParses o then 0 else -1) ∧
      ((parseResponse o.json addr).run m).2.log =
        (if ReplyParses o then copyAccesses (addressString o) else []) ++ m.log ∧
      ∃ new, m.heap.Extends ((parseResponse o.json addr).run m).2.heap new ∧
        (∀ p ∈ new, p.2 = .jsonTree) ∧ (ReplyParses o → new = []) := by
  have hrefl := Ledger.Extends.refl m.heap
  have hnil : ∀ p ∈ ([] : List (Nat × Kind)), p.2 = .jsonTree := List.forall_mem_nil _
  have htree : ∀ p ∈ [(m.heap.next, Kind.jsonTree)], p.2 = .jsonTree := by
    intro p hp
    rw [List.mem_singleton.mp hp]
  cases hj : o.json with
  | none =>
    have hno : ¬ ReplyParses o := by rw [ReplyParses, hj]; exact id
    rw [if_neg hno, if_neg hno]
    exact ⟨rfl, rfl, [], hrefl, hnil, fun _ => rfl⟩
  | some root =>
    have hp := replyParses_some hj
    cases ha : root "address" with
    | none =>
      have hno : ¬ ReplyParses o := fun h => by
        have := (hp.mp h).1
        rw [ha] at this
        cases this
      rw [if_neg hno, if_neg hno]
      simp only [parseResponse, ha, Prog.run_bind, run_acquireHandle, Prog.run_pure]
      exact ⟨trivial, rfl, _, hrefl.acquire _, htree, fun h => absurd h hno⟩
    | some jAddress =>
      cases hport : root "port" with
      | none =>
        have hno : ¬ ReplyParses o := fun h => by
          have := (hp.mp h).2.1
          rw [hport] at this
          cases this
        rw [if_neg hno, if_neg hno]
        simp only [parseResponse, ha, hport, Prog.run_bind, run_acquireHandle, Prog.run_pure]
        exact ⟨trivial, rfl, _, hrefl.acquire _, htree, fun h => absurd h hno⟩
      | some jPort =>
        cases ht : root "use_tls" with
        | none =>
          have hno : ¬ ReplyParses o := fun h => by
            have := (hp.mp h).2.2
            rw [ht] at this
            cases this
          rw [if_neg hno, if_neg hno]
          simp only [parseResponse, ha, hport, ht, Prog.run_bind, run_acquireHandle, Prog.run_pure]
          exact ⟨trivial, rfl, _, hrefl.acquire _, htree, fun h => absurd h hno⟩
        | some jTls =>
          have hyes : ReplyParses o := hp.mpr ⟨by rw [ha]; rfl, by rw [hport]; rfl, by rw [ht]; rfl⟩
          have hstring : addressString o = jAddress.valuestring := by
            rw [addressString, hj, Option.bind_some, ha, Option.bind_some]
          rw [if_pos hyes, if_pos hyes, run_parseResponse_fields addr m ha hport ht, hstring]
          exact ⟨rfl, rfl, [], (hrefl.acquire _).release, hnil, fun _ => rfl⟩

/-- The exits of `bootstrap` before the reply is parsed. -/
theorem run_bootstrap_request (h : ¬ ReplyRead o) :
    (bootstrap o addr).run m =
      ((if RequestMarked o then responseAuthorizationFail else -1, addr), m) := by
  have hneg : (-1 : Int) < 0 := by decide
  cases hs : o.sessionCreated with
  | false =>
    have hno : ¬ RequestMarked o := fun hm => by
      have := hm.1
      rw [hs] at this
      cases this
    rw [if_neg hno]
    simp [bootstrap, webclientRequest2, hs]
  | true =>
    by_cases hget : o.get = 200
    · have hresp : o.response ≤ 0 := by
        rcases Int.lt_or_le 0 o.response with hr | hr
        · exact absurd ⟨hs, hget, hr⟩ h
        · exact hr
      rw [if_pos ⟨hs, by rw [hget]; decide, .inr hresp⟩]
      simp [bootstrap, webclientRequest2, hs, hget, hresp]
    · by_cases hzero : o.get = 0
      · have hno : ¬ RequestMarked o := fun hm => hm.2.1 hzero
        rw [if_neg hno]
        simp [bootstrap, webclientRequest2, hs, hzero]
      · rw [if_pos ⟨hs, hzero, .inl hget⟩]
        simp [bootstrap, webclientRequest2, hs, hget, hzero]

/-- `bootstrap` once a reply was read. -/
theorem run_bootstrap_parse (h : ReplyRead o) :
    (bootstrap o addr).run m =
      let p := (parseResponse o.json addr).run { m with heap := m.heap.acquire .replyText }
      if p.1.1 < 0 then p
      else ((0, p.1.2), { p.2 with heap := p.2.heap.release m.heap.next }) := by
  obtain ⟨hs, hget, hresp⟩ := h
  have hlen : ¬ o.response ≤ 0 := Int.not_le.mpr hresp
  have hpos : ¬ o.response < 0 := by omega
  simp only [bootstrap, webclientRequest2, hs, hget, not_true_eq_false, if_false, ne_eq, hlen,
    Prog.run_bind, run_acquireHandle, Prog.run_pure, hpos, Prog.run_ite, run_espushFree]

end BootstrapLemmas

open BootstrapLemmas

theorem bootstrap_rc (o : Outside) (addr : ServerAddress) (m : Mem) :
    ((bootstrap o addr).run m).1.1 =
      if RequestMarked o then responseAuthorizationFail
      else if ReplyRead o ∧ ReplyParses o then 0 else -1 := by
  by_cases hread : ReplyRead o
  · have hno : ¬ RequestMarked o := fun hm => by
      have := hm.2.2
      have := hread.2.1
      have := hread.2.2
      omega
    have hp := (parseResponse_result o addr { m with heap := m.heap.acquire .replyText }).1
    rw [if_neg hno, run_bootstrap_parse hread]
    by_cases hparse : ReplyParses o
    · rw [if_pos hparse] at hp
      have hpos : ¬ ((parseResponse o.json addr).run
          { m with heap := m.heap.acquire .replyText }).1.1 < 0 := by
        rw [hp]
        decide
      rw [if_pos (c := ReplyRead o ∧ ReplyParses o) ⟨hread, hparse⟩]
      simp only [if_neg hpos]
    · rw [if_neg hparse] at hp
      have hneg : ((parseResponse o.json addr).run
          { m with heap := m.heap.acquire .replyText }).1.1 < 0 := by
        rw [hp]
        decide
      rw [if_neg (c := ReplyRead o ∧ ReplyParses o) fun h => hparse h.2]
      simp only [if_pos hneg]
      exact hp
  · rw [run_bootstrap_request hread, if_neg (c := ReplyRead o ∧ ReplyParses o) fun h => hread h.1]

/-- What is live after `bootstrap` is what was live before exactly when no reply
was read or the reply has the three fields. -/
theorem bootstrap_heap (o : Outside) (addr : ServerAddress) (m : Mem) :
    ∃ new, m.heap.Extends ((bootstrap o addr).run m).2.heap new ∧
      (∀ p ∈ new, p.2 = .replyText ∨ p.2 = .jsonTree) ∧
      (new = [] ↔ (ReplyRead o → ReplyParses o)) := by
  have hrefl := Ledger.Extends.refl m.heap
  by_cases hread : ReplyRead o
  · obtain ⟨hrc, _, new, hext, hkind, hnew⟩ := parseResponse_result o addr
      { m with heap := m.heap.acquire .replyText }
    rw [run_bootstrap_parse hread]
    generalize (parseResponse o.json addr).run { m with heap := m.heap.acquire .replyText } = p
      at hrc hext
    by_cases hparse : ReplyParses o
    · rw [if_pos hparse] at hrc
      obtain rfl := hnew hparse
      have hpos : ¬ p.1.1 < 0 := by rw [hrc]; decide
      simp only [if_neg hpos]
      exact ⟨[], hext.release_oldest, List.forall_mem_nil _,
        iff_of_true rfl fun _ => hparse⟩
    · rw [if_neg hparse] at hrc
      have hneg : p.1.1 < 0 := by rw [hrc]; decide
      simp only [if_pos hneg]
      refine ⟨_, (hrefl.acquire _).trans hext, ?_, iff_of_false ?_ fun h => hparse (h hread)⟩
      · intro q hq
        rcases List.mem_append.mp hq with hq | hq
        · exact .inr (hkind q hq)
        · rw [List.mem_singleton.mp hq]
          exact .inl rfl
      · exact fun hnil => List.cons_ne_nil _ _ (List.append_eq_nil_iff.mp hnil).2
  · rw [run_bootstrap_request hread]
    exact ⟨[], hrefl, List.forall_mem_nil _, iff_of_true rfl fun h => absurd h hread⟩

/-- `bootstrap` stays inside exactly when a reply with the three fields that is read has
an address that fits. -/
theorem bootstrap_inside (o : Outside) (addr : ServerAddress) (m : Mem) :
    m.AccessesInside ((bootstrap o addr).run m).2 ↔
      (ReplyRead o → ReplyParses o → AddressFits o) := by
  by_cases hread : ReplyRead o
  · have hlog : ((bootstrap o addr).run m).2.log =
        (if ReplyParses o then copyAccesses (addressString o) else []) ++ m.log := by
      rw [← (parseResponse_result o addr { m with heap := m.heap.acquire .replyText }).2.1,
        run_bootstrap_parse hread]
      generalize (parseResponse o.json addr).run { m with heap := m.heap.acquire .replyText } = p
      by_cases hneg : p.1.1 < 0
      · simp only [if_pos hneg]
      · simp only [if_neg hneg]
    rw [Mem.accessesInside_iff hlog, imp_iff_right hread]
    by_cases hparse : ReplyParses o
    · rw [if_pos hparse, imp_iff_right hparse]
      exact copyAccesses_inside _
    · rw [if_neg hparse]
      exact iff_of_true (List.forall_mem_nil _) fun h => absurd h hparse
  · rw [run_bootstrap_request hread]
    exact iff_of_true ⟨[], rfl, List.forall_mem_nil _⟩ fun h => absurd h hread

end EspushW60x
