import EspushW60x.EfEnv
import EspushW60x.Lib.Dict

/-!
# Tables of environment variables

What `env_cache` is for: a table of variables with different names, each of them with a
value, that fits into the block. `encodeEnv` is the table as it is laid out in memory.
`EnvTable.set` and `EnvTable.del` say what setting and deleting a variable do.

Results:
* `get_set_self`, `get_set_ne`, `get_del_self`, `get_del_ne`: lookups after a change;
* `hit_iff`, `cString_envEntry`: how a string in memory is recognised.
-/

namespace EspushW60x

open Lib

/-- A name that a variable can have. -/
def CStr.IsName (k : CStr) : Prop := k.bytes ≠ [] ∧ '='.toUInt8 ∉ k.bytes

instance (k : CStr) : Decidable k.IsName := inferInstanceAs (Decidable (_ ∧ _))

theorem CStr.ext_bytes {a b : CStr} (h : a.bytes = b.bytes) : a = b := by
  cases a
  cases b
  cases h
  rfl

/-! ## Layout -/

/-- The string `key=value`. -/
def envText (x : CStr × CStr) : Bytes := x.1.bytes ++ '='.toUInt8 :: x.2.bytes

/-- The string with its NUL, padded to whole words. -/
def envEntry (x : CStr × CStr) : Bytes :=
  envText x ++ List.replicate (wordAlign ((envText x).length + 1) - (envText x).length) 0

theorem length_envText (k v : CStr) :
    (envText (k, v)).length + 1 = k.bytes.length + v.bytes.length + 2 := by
  show (k.bytes ++ '='.toUInt8 :: v.bytes).length + 1 = _
  rw [List.length_append, List.length_cons]
  omega

def encodeEnv (xs : List (CStr × CStr)) : Bytes := xs.flatMap envEntry

@[simp] theorem encodeEnv_nil : encodeEnv [] = [] := by rfl

@[simp] theorem encodeEnv_cons (x : CStr × CStr) (xs : List (CStr × CStr)) :
    encodeEnv (x :: xs) = envEntry x ++ encodeEnv xs := by
  simp [encodeEnv]

@[simp] theorem encodeEnv_append (xs ys : List (CStr × CStr)) :
    encodeEnv (xs ++ ys) = encodeEnv xs ++ encodeEnv ys := by
  simp [encodeEnv]

theorem le_wordAlign (n : Nat) : n ≤ wordAlign n := by
  unfold wordAlign
  split <;> omega

theorem length_envEntry (x : CStr × CStr) :
    (envEntry x).length = wordAlign ((envText x).length + 1) := by
  have h := le_wordAlign ((envText x).length + 1)
  rw [envEntry, List.length_append, List.length_replicate]
  omega

/-- There are at least as many bytes as entries. -/
theorem length_le_length_encodeEnv (xs : List (CStr × CStr)) : xs.length ≤ (encodeEnv xs).length := by
  induction xs with
  | nil => exact Nat.le_refl 0
  | cons x xs ih =>
    have h := le_wordAlign ((envText x).length + 1)
    rw [encodeEnv_cons, List.length_append, length_envEntry, List.length_cons]
    omega

theorem length_encodeEnv_erase_le (d : Dict CStr CStr) (k : CStr) :
    (encodeEnv (d.erase k).entries).length ≤ (encodeEnv d.entries).length := by
  cases h : d.get k with
  | none =>
    exact Nat.le_of_eq (by rw [Dict.erase_of_get_none h])
  | some v =>
    obtain ⟨pre, post, hsplit, hpre⟩ := Dict.split_of_get h
    rw [Dict.entries_erase hsplit hpre, hsplit]
    simp only [encodeEnv_append, encodeEnv_cons, List.length_append]
    omega

/-! ## Tables -/

/-- Variables that fit into `env_cache`. -/
structure EnvTable where
  vars : Dict CStr CStr
  names : ∀ x ∈ vars.entries, x.1.IsName
  fits : envParamByteSize + (encodeEnv vars.entries).length < envUserSettingSize

namespace EnvTable

def encode (t : EnvTable) : Bytes := encodeEnv t.vars.entries

/-- The number of bytes in use, those of the parameters included. -/
def size (t : EnvTable) : Nat := envParamByteSize + t.encode.length

def get (t : EnvTable) (k : CStr) : Option CStr := t.vars.get k

def empty : EnvTable where
  vars := Dict.empty
  names := fun _ h => absurd h List.not_mem_nil
  fits := by decide

def erase (t : EnvTable) (k : CStr) : EnvTable where
  vars := t.vars.erase k
  names := fun x hx => t.names x (List.mem_of_mem_eraseP hx)
  fits := Nat.lt_of_le_of_lt (Nat.add_le_add_left (length_encodeEnv_erase_le t.vars k) _) t.fits

/-- A new variable at the end. -/
def add (t : EnvTable) (k v : CStr) (hname : k.IsName) (hnew : t.get k = none)
    (hfits : (envEntry (k, v)).length + t.size < envUserSettingSize) : EnvTable where
  vars := t.vars.add k v hnew
  names := by
    intro x hx
    rcases List.mem_append.mp hx with hx | hx
    · exact t.names x hx
    · rw [List.mem_singleton.mp hx]
      exact hname
  fits := by
    show _ + (encodeEnv (t.vars.entries ++ [(k, v)])).length < _
    rw [encodeEnv_append, List.length_append, encodeEnv_cons, encodeEnv_nil, List.append_nil]
    unfold size encode at hfits
    omega

/-- Create a variable that is not there. -/
def create (t : EnvTable) (k v : CStr) : EfErrCode × EnvTable :=
  if hname : k.IsName then
    if hnew : t.get k = none then
      if hfits : (envEntry (k, v)).length + t.size < envUserSettingSize then
        (.noErr, t.add k v hname hnew hfits)
      else (.envFull, t)
    else (.envNameExist, t)
  else (.envNameErr, t)

/-- Set a variable. A new value is put at the end of the table; when it does not fit
there, the old one is gone all the same. -/
def set (t : EnvTable) (k v : CStr) : EfErrCode × EnvTable :=
  if k.IsName then
    if t.get k = some v then (.noErr, t) else (t.erase k).create k v
  else (.envNameErr, t)

/-- Delete a variable. -/
def del (t : EnvTable) (k : CStr) : EfErrCode × EnvTable :=
  if k.IsName ∧ t.get k ≠ none then (.noErr, t.erase k) else (.envNameErr, t)

theorem ext_entries {t u : EnvTable} (h : t.vars.entries = u.vars.entries) : t = u := by
  obtain ⟨⟨xs, _⟩, _, _⟩ := t
  obtain ⟨⟨ys, _⟩, _, _⟩ := u
  obtain rfl : xs = ys := h
  rfl

@[simp] theorem get_erase_self (t : EnvTable) (k : CStr) : (t.erase k).get k = none :=
  Dict.get_erase_self _ _

theorem get_erase_ne (t : EnvTable) {k k' : CStr} (h : k' ≠ k) : (t.erase k).get k' = t.get k' :=
  Dict.get_erase_ne _ h

theorem encode_add (t : EnvTable) (k v : CStr) (hname : k.IsName) (hnew : t.get k = none)
    (hfits : (envEntry (k, v)).length + t.size < envUserSettingSize) :
    (t.add k v hname hnew hfits).encode = t.encode ++ envEntry (k, v) := by
  show encodeEnv (t.vars.entries ++ [(k, v)]) = _
  rw [encodeEnv_append, encodeEnv_cons, encodeEnv_nil, List.append_nil]
  rfl

section Create

variable {t : EnvTable} {k v : CStr}

theorem create_eq_add (hname : k.IsName) (hnew : t.get k = none)
    (hfits : (envEntry (k, v)).length + t.size < envUserSettingSize) :
    t.create k v = (.noErr, t.add k v hname hnew hfits) := by
  rw [create, dif_pos hname, dif_pos hnew, dif_pos hfits]

theorem create_full (hname : k.IsName) (hnew : t.get k = none)
    (hfull : ¬ (envEntry (k, v)).length + t.size < envUserSettingSize) :
    t.create k v = (.envFull, t) := by
  rw [create, dif_pos hname, dif_pos hnew, dif_neg hfull]

theorem create_exist (hname : k.IsName) (h : t.get k ≠ none) :
    t.create k v = (.envNameExist, t) := by
  rw [create, dif_pos hname, dif_neg h]

theorem create_not_name (hname : ¬ k.IsName) : t.create k v = (.envNameErr, t) := by
  rw [create, dif_neg hname]

/-- What a lookup finds after creating a variable. -/
theorem get_create (t : EnvTable) (k v k' : CStr) :
    (t.create k v).2.get k' =
      if k' = k ∧ (t.create k v).1 = .noErr then some v else t.get k' := by
  by_cases hname : k.IsName
  · by_cases hnew : t.get k = none
    · by_cases hfits : (envEntry (k, v)).length + t.size < envUserSettingSize
      · rw [create_eq_add hname hnew hfits]
        by_cases hk : k' = k
        · subst hk
          rw [if_pos ⟨rfl, rfl⟩]
          exact Dict.get_add_self _ _ _ hnew
        · rw [if_neg fun h => hk h.1]
          exact Dict.get_add_ne _ _ hnew hk
      · rw [create_full hname hnew hfits, if_neg (by simp)]
    · rw [create_exist hname hnew, if_neg (by simp)]
  · rw [create_not_name hname, if_neg (by simp)]

end Create

/-! ## Lookups after a change -/

/-- A variable that was set has its new value, or else none, unless the name was bad. -/
theorem get_set_self (t : EnvTable) {k : CStr} (v : CStr) (hname : k.IsName) :
    (t.set k v).2.get k = if (t.set k v).1 = .noErr then some v else none := by
  rw [set, if_pos hname]
  by_cases hsame : t.get k = some v
  · rw [if_pos hsame, if_pos rfl]
    exact hsame
  · rw [if_neg hsame, get_create]
    by_cases hok : ((t.erase k).create k v).1 = .noErr
    · rw [if_pos ⟨rfl, hok⟩, if_pos hok]
    · rw [if_neg fun h => hok h.2, if_neg hok, get_erase_self]

/-- A variable with a name that it can have is set, or the block is full. -/
theorem set_result (t : EnvTable) {k : CStr} (v : CStr) (hname : k.IsName) :
    (t.set k v).1 = .noErr ∨ (t.set k v).1 = .envFull := by
  rw [set, if_pos hname]
  by_cases hsame : t.get k = some v
  · rw [if_pos hsame]
    exact .inl rfl
  · rw [if_neg hsame]
    by_cases hfits : (envEntry (k, v)).length + (t.erase k).size < envUserSettingSize
    · rw [create_eq_add hname (get_erase_self t k) hfits]
      exact .inl rfl
    · rw [create_full hname (get_erase_self t k) hfits]
      exact .inr rfl

theorem size_erase_le (t : EnvTable) (k : CStr) : (t.erase k).size ≤ t.size :=
  Nat.add_le_add_left (length_encodeEnv_erase_le t.vars k) envParamByteSize

/-- A variable is set when there is room for it. -/
theorem set_of_room {t : EnvTable} {k : CStr} (v : CStr) (hname : k.IsName)
    (hroom : t.size + (envEntry (k, v)).length < envUserSettingSize) :
    (t.set k v).1 = .noErr ∧ (t.set k v).2.size ≤ t.size + (envEntry (k, v)).length := by
  have herase := size_erase_le t k
  rw [set, if_pos hname]
  by_cases hsame : t.get k = some v
  · rw [if_pos hsame]
    exact ⟨rfl, Nat.le_add_right _ _⟩
  · have hfits : (envEntry (k, v)).length + (t.erase k).size < envUserSettingSize := by omega
    rw [if_neg hsame, create_eq_add hname (get_erase_self t k) hfits]
    refine ⟨rfl, ?_⟩
    show envParamByteSize + ((t.erase k).add k v hname (get_erase_self t k) hfits).encode.length ≤ _
    rw [encode_add, List.length_append]
    unfold size at herase ⊢
    omega

theorem get_set_ne (t : EnvTable) {k k' : CStr} (v : CStr) (h : k' ≠ k) :
    (t.set k v).2.get k' = t.get k' := by
  unfold set
  split
  · split
    · rfl
    · rw [get_create, if_neg fun hk => h hk.1, get_erase_ne t h]
  · rfl

/-- A name that was deleted has no value. -/
theorem get_del_self (t : EnvTable) {k : CStr} (hname : k.IsName) : (t.del k).2.get k = none := by
  unfold del
  split
  · exact get_erase_self t k
  · next h => exact Classical.not_not.mp fun hk => h ⟨hname, hk⟩

theorem get_del_ne (t : EnvTable) {k k' : CStr} (h : k' ≠ k) : (t.del k).2.get k' = t.get k' := by
  unfold del
  split
  · exact get_erase_ne t h
  · rfl

end EnvTable

/-! ## Strings in memory -/

namespace EnvLemmas

theorem eq_ne_zero : '='.toUInt8 ≠ 0 := by decide

theorem envText_ne_zero (x : CStr × CStr) : ∀ b ∈ envText x, b ≠ 0 := by
  intro b hb
  rcases List.mem_append.mp hb with hb | hb
  · exact x.1.ne_zero b hb
  · rcases List.mem_cons.mp hb with rfl | hb
    · exact eq_ne_zero
    · exact x.2.ne_zero b hb

/-- An entry is its string, a NUL, and padding. -/
theorem envEntry_eq (x : CStr × CStr) : ∃ pad, envEntry x = envText x ++ 0 :: pad := by
  have h := le_wordAlign ((envText x).length + 1)
  obtain ⟨n, hn⟩ := Nat.exists_eq_add_of_lt
    (show 0 < wordAlign ((envText x).length + 1) - (envText x).length by omega)
  rw [Nat.zero_add] at hn
  exact ⟨List.replicate n 0, by rw [envEntry, hn, List.replicate_succ]⟩

/-- The string at an entry. -/
theorem cString_envEntry (x : CStr × CStr) (rest : Bytes) :
    cString (envEntry x ++ rest) = envText x := by
  obtain ⟨pad, hpad⟩ := envEntry_eq x
  rw [hpad, List.append_assoc]
  exact cString_append (envText_ne_zero x) _

/-- Two words with a separator after them are the same when one text begins with both. -/
theorem eq_of_sep_starts {α : Type} {sep : α} {a b c : List α} (ha : sep ∉ a) (hb : sep ∉ b)
    (h : a ++ [sep] <+: b ++ sep :: c) : a = b := by
  obtain ⟨r, hr⟩ := h
  rw [List.append_assoc] at hr
  rcases List.append_eq_append_iff.mp hr with ⟨d, hbd, hd⟩ | ⟨d, had, hd⟩
  · cases d with
    | nil => rw [hbd, List.append_nil]
    | cons y d =>
      obtain ⟨rfl, _⟩ := List.cons.inj hd
      exact absurd (hbd ▸ List.mem_append_right _ List.mem_cons_self) hb
  · cases d with
    | nil => rw [had, List.append_nil]
    | cons y d =>
      obtain ⟨rfl, _⟩ := List.cons.inj hd
      exact absurd (had ▸ List.mem_append_right _ List.mem_cons_self) ha

/-- The string of `x` begins with the key and an equal sign. -/
def Hit (key : Bytes) (x : CStr × CStr) : Prop := key ++ ['='.toUInt8] <+: envText x

instance (key : Bytes) (x : CStr × CStr) : Decidable (Hit key x) :=
  inferInstanceAs (Decidable (_ <+: _))

/-- The key is that of the variable, when it is a name. -/
theorem hit_iff {k : CStr} (hk : k.IsName) {x : CStr × CStr} (hx : x.1.IsName) :
    Hit k.bytes x ↔ x.1 = k := by
  constructor
  · exact fun h => CStr.ext_bytes (eq_of_sep_starts hk.2 hx.2 h).symm
  · rintro rfl
    exact ⟨x.2.bytes, by rw [envText, List.append_assoc]; rfl⟩

/-- The comparison of `find_env` at an entry. -/
theorem compare_iff_hit (k : CStr) (x : CStr × CStr) (rest : Bytes) :
    ((envEntry x ++ rest).take k.bytes.length = k.bytes ∧
        byteAt (envEntry x ++ rest) k.bytes.length = '='.toUInt8) ↔ Hit k.bytes x := by
  obtain ⟨pad, hpad⟩ := envEntry_eq x
  rw [hpad, List.append_assoc, List.cons_append]
  generalize pad ++ rest = tail
  constructor
  · rintro ⟨htake, hbyte⟩
    have hprefix : k.bytes ++ ['='.toUInt8] <+: envText x ++ 0 :: tail := by
      refine ⟨(envText x ++ 0 :: tail).drop (k.bytes.length + 1), ?_⟩
      have hlt : k.bytes.length < (envText x ++ 0 :: tail).length := by
        refine Nat.lt_of_not_le fun hle => ?_
        rw [byteAt, List.getD_eq_getElem?_getD, List.getElem?_eq_none hle] at hbyte
        exact absurd hbyte.symm eq_ne_zero
      have hget : (envText x ++ 0 :: tail)[k.bytes.length] = '='.toUInt8 := by
        rw [← hbyte, byteAt, List.getD_eq_getElem?_getD, List.getElem?_eq_getElem hlt]
        rfl
      rw [List.append_assoc, ← hget, List.singleton_append, List.getElem_cons_drop, ← htake,
        List.length_take, Nat.min_eq_left (Nat.le_of_lt hlt), List.take_append_drop]
    -- the key and the equal sign have no NUL, so they end before it
    refine List.prefix_of_prefix_length_le hprefix (List.prefix_append _ _) ?_
    refine Nat.le_of_not_lt fun hlt => ?_
    have hnul : (0 : UInt8) ∈ k.bytes ++ ['='.toUInt8] := by
      obtain ⟨r, hr⟩ := hprefix
      have hget := congrArg (fun l => l[(envText x).length]?) hr
      simp only [List.getElem?_append_left hlt, List.getElem?_append_right (Nat.le_refl _),
        Nat.sub_self, List.getElem?_cons_zero] at hget
      exact List.mem_of_getElem? hget
    rcases List.mem_append.mp hnul with h | h
    · exact k.ne_zero 0 h rfl
    · exact eq_ne_zero (List.mem_singleton.mp h).symm
  · rintro ⟨r, hr⟩
    rw [← hr, List.append_assoc, List.append_assoc]
    constructor
    · exact List.take_left' rfl
    · rw [byteAt, List.getD_eq_getElem?_getD, List.getElem?_append_right (Nat.le_refl _),
        Nat.sub_self]
      rfl

/-- The value in the string of a variable. -/
theorem idxOf_eq_envText {x : CStr × CStr} (hx : x.1.IsName) :
    (envText x).idxOf '='.toUInt8 = x.1.bytes.length := by
  rw [envText, List.idxOf_append, if_neg hx.2, List.idxOf_cons_self, Nat.zero_add]

end EnvLemmas

end EspushW60x
