import EspushW60x.EnvLoad

/-!
# The variables across power cuts

The board is switched on, sets, deletes and saves variables, and loses power: between
two calls, or in the middle of one. Then it is switched on again. `Vars` is what the
variables are for: a table in memory, and the one that was saved last.

Results:
* `run_efEnvInit`: what a start finds;
* `session_stored`: what one session leaves in flash;
* `power_cuts_keep_variables`: what is found after any number of sessions.
-/

namespace EspushW60x

open Lib FalLemmas EnvLemmas AreaLemmas

/-! ## Sessions -/

inductive EnvCall
  | set (key value : CStr)
  | del (key : CStr)
  | save

section

variable (e : FlashEnv) (part : FalPartition)

def EnvCall.perform : EnvCall → Powered Ef EfErrCode
  | .set key value => efSetEnv key (some value)
  | .del key => efDelEnv key
  | .save => efSaveEnv e part

def performCalls : List EnvCall → Powered Ef Unit
  | [] => return ()
  | call :: calls => do
    let _ ← call.perform e part
    performCalls calls

/-- From a start until power is lost. -/
def session (calls : List EnvCall) : Powered Ef Unit := do
  let _ ← efEnvInit e part
  performCalls e part calls

/-- The number of calls that return. -/
def returnedCalls : List EnvCall → Ef → Nat
  | [], _ => 0
  | call :: calls, s =>
    match (call.perform e part).run s with
    | (some _, s') => returnedCalls calls s' + 1
    | (none, _) => 0

/-- The number of calls that return after a start that ended like this. -/
def returnedAfter (calls : List EnvCall) : Option EfErrCode × Ef → Nat
  | (some _, s) => returnedCalls e part calls s
  | (none, _) => 0

/-- The number of calls of a session that return. -/
def returnedInSession (calls : List EnvCall) (c : Chip) : Nat :=
  returnedAfter e part calls ((efEnvInit e part).run (Ef.boot c))

/-- The chip when a program ended like this. -/
def chipAfter {α : Type} (r : Option α × Ef) : Chip := r.2.chip

/-- The chip after a session. -/
def sessionChip (calls : List EnvCall) (c : Chip) : Chip :=
  chipAfter ((session e part calls).run (Ef.boot c))

/-- The chip after several sessions. -/
def lifeChip (sessions : List (List EnvCall)) (c : Chip) : Chip :=
  sessions.foldl (fun c calls => sessionChip e part calls c) c

end

/-! ## What the variables are for -/

/-- The table in memory, and the one that was saved last. -/
structure Vars where
  work : EnvTable
  stored : EnvTable

def Vars.perform (v : Vars) : EnvCall → Vars
  | .set key value => { v with work := (v.work.set key value).2 }
  | .del key => { v with work := (v.work.del key).2 }
  | .save => { v with stored := v.work }

/-- The table that was saved last when calls start from the table `t`. -/
def storedAfter (calls : List EnvCall) (t : EnvTable) : EnvTable :=
  (calls.foldl Vars.perform ⟨t, t⟩).stored

/-- `default_env_set` -/
def EnvTable.default : EnvTable :=
  defaultEnvSet.foldl (fun t x => (t.create x.1 x.2).2) EnvTable.empty

/-- The calls of each session lead from one table in flash to the next: those that
returned, and the one in which power was lost or not. -/
def Lives (e : FlashEnv) (part : FalPartition) :
    List (List EnvCall) → Chip → EnvTable → EnvTable → Prop
  | [], _, t, t' => t' = t
  | calls :: sessions, c, t, t' =>
    ∃ k, (k = returnedInSession e part calls c ∨ k = returnedInSession e part calls c + 1) ∧
      Lives e part sessions (sessionChip e part calls c) (storedAfter (calls.take k) t) t'

/-! ## What a power cut leaves -/

section

variable {e : FlashEnv} (p : EnvPartition e)

/-- The area in which a save was cut off does not pass its check, or is as it was, or has
all that was to be saved. -/
def CutNoticed (s s' : Ef) : Prop :=
  ∀ side, s.nextSaveAreaAddr = areaAddr side →
    AreaBad p s'.chip.cells side ∨ AreaSame p s.chip.cells s'.chip.cells side ∨
      Nor.read s'.chip.cells (p.base side) (getEnvUserUsedSize s) =
        (preparedToSave s).envCache.take (getEnvUserUsedSize s)

/-- The same for the defaults, which are saved to area 0 and then to area 1. -/
def DefaultsNoticed (m : Nor.Cells) : Prop :=
  ∀ side, AreaBad p m side ∨ AreaHolds p m side (if side then 2 else 1) EnvTable.default

/-- What is left when power is lost in one of the calls. -/
def CallsNoticed : List EnvCall → Ef → Prop
  | [], _ => True
  | call :: calls, s =>
    match (call.perform e p.part).run s with
    | (some _, s') => CallsNoticed calls s'
    | (none, s') => CutNoticed p s s'

def NoticedAfter (calls : List EnvCall) : Option EfErrCode × Ef → Prop
  | (some _, s) => CallsNoticed p calls s
  | (none, s) => DefaultsNoticed p s.chip.cells

def SessionNoticed (calls : List EnvCall) (c : Chip) : Prop :=
  NoticedAfter p calls ((efEnvInit e p.part).run (Ef.boot c))

def LifeNoticed : List (List EnvCall) → Chip → Prop
  | [], _ => True
  | calls :: sessions, c =>
    SessionNoticed p calls c ∧ LifeNoticed sessions (sessionChip e p.part calls c)

end

/-! ## The invariant -/

section

variable {e : FlashEnv} (p : EnvPartition e)

/-- The next start finds the table `t`, with a number up to `n`. -/
inductive Stored (m : Nor.Cells) (n : Nat) : EnvTable → Prop
  | kept {x : Shadow.Copies EnvTable} {side : Bool} {k : Nat} {t : EnvTable}
      (found : ∀ b, Found p m b (x b)) (keeps : Shadow.Keeps x side k t) (le : k ≤ n) :
      Stored m n t
  | blank (bad : ∀ b, AreaBad p m b) : Stored m n EnvTable.default

/-- The board is on, with the variables `v` and the number `n` of the last save. -/
structure Live (s : Ef) (n : Nat) (v : Vars) : Prop where
  holds : Holds s v.work
  initOk : s.initOk = true
  flash : ∃ x side, (∀ b, Found p s.chip.cells b (x b)) ∧ Shadow.Keeps x side n v.stored ∧
    s.curLoadAreaAddr = areaAddr side ∧ s.nextSaveAreaAddr = areaAddr (!side)
  count : s.word envParamIndexSavedCount = n
  clean : s.envCacheChanged = false → v.work = v.stored

end

namespace PowerLemmas

section

variable {e : FlashEnv} {p : EnvPartition e} {s : Ef} {n k : Nat} {v : Vars} {t : EnvTable}

theorem Stored.mono {m : Nor.Cells} (h : Stored p m n t) (hle : n ≤ k) : Stored p m k t := by
  cases h with
  | kept found keeps le => exact .kept found keeps (Nat.le_trans le hle)
  | blank bad => exact .blank bad

theorem Live.stored (h : Live p s n v) : Stored p s.chip.cells n v.stored := by
  obtain ⟨x, side, hfound, hkeeps, _, _⟩ := h.flash
  exact .kept hfound hkeeps (Nat.le_refl n)

/-- Setting and deleting is in memory. -/
theorem Live.edits (h : Live p s n v) {s' : Ef} {t' : EnvTable} (hedits : Edits s s' v.work t') :
    Live p s' n { v with work := t' } where
  holds := hedits.holds
  initOk := hedits.initOk.trans h.initOk
  flash := by
    obtain ⟨x, side, hfound, hkeeps, hcur, hnext⟩ := h.flash
    rw [← hedits.chip] at hfound
    exact ⟨x, side, hfound, hkeeps, hedits.cur.trans hcur, hedits.next.trans hnext⟩
  count := hedits.savedCount.trans h.count
  clean hclean := by
    rcases hedits.changed with htrue | ⟨hsame, rfl⟩
    · rw [htrue] at hclean
      cases hclean
    · exact h.clean (hsame ▸ hclean)

/-- What is found of the areas after a change of one of them. -/
theorem found_after {m m' : Nor.Cells} {side : Bool} {x : Shadow.Copies EnvTable}
    (hfound : ∀ b, Found p m b (x b)) (hframe : Nor.AgreeOutside m m' (p.base (!side)) efEraseMinSize)
    {y : Option (Nat × EnvTable)} (hy : Found p m' (!side) y) :
    ∃ x' : Shadow.Copies EnvTable, (∀ b, Found p m' b (x' b)) ∧ x' side = x side ∧ x' (!side) = y := by
  refine ⟨fun b => if b = side then x side else y, fun b => ?_, if_pos rfl, if_neg (by simp)⟩
  by_cases hb : b = side
  · subst hb
    dsimp only
    rw [if_pos rfl]
    have hsame := areaSame_of_agree hframe
    rw [Bool.not_not] at hsame
    exact Found.of_same hsame (hfound b)
  · obtain rfl : b = !side := by cases b <;> cases side <;> simp_all
    dsimp only
    rw [if_neg hb]
    exact hy

/-- A save: it is done, or power is lost. -/
theorem run_save (h : Live p s n v) (hn : n + 1 < 0x100000000) (hfail : ∀ k found, e.fate k ≠ .failed found) :
    (((efSaveEnv e p.part).run s).1 = some .noErr ∧
        ∃ k, k ≤ n + 1 ∧ Live p ((efSaveEnv e p.part).run s).2 k { v with stored := v.work }) ∨
      ((efSaveEnv e p.part).run s).1 = none ∧ (∃ k found, e.fate k = .cut found) ∧
        (CutNoticed p s ((efSaveEnv e p.part).run s).2 →
          Stored p ((efSaveEnv e p.part).run s).2.chip.cells (n + 1) v.stored ∨
            Stored p ((efSaveEnv e p.part).run s).2.chip.cells (n + 1) v.work) := by
  obtain ⟨x, side, hfound, hkeeps, hcur, hnext⟩ := h.flash
  cases hchanged : s.envCacheChanged with
  | false =>
    rw [run_efSaveEnv_unchanged e p.part hchanged]
    refine .inl ⟨rfl, n, Nat.le_succ n, h.holds, h.initOk, ?_, h.count, fun _ => rfl⟩
    rw [h.clean hchanged]
    exact ⟨x, side, hfound, hkeeps, hcur, hnext⟩
  | true =>
    have hprepared := (prepared_preparedToSave h.holds hnext).text
    have hsave := run_efSaveEnv p h.holds hnext hchanged
    have hframe := hsave.frame
    have hresult := hsave.result
    obtain ⟨hholds, hcount, hcur', hnext', hinit, _⟩ := hsave
    have hsucc : (s.word envParamIndexSavedCount + 1) % 0x100000000 = n + 1 := by
      rw [h.count]
      exact Nat.mod_eq_of_lt hn
    rw [hsucc] at hcount hresult hprepared
    obtain ⟨hok, hclean, harea⟩ | ⟨⟨k, found, hfate⟩, _⟩ | ⟨hfate, hcut⟩ := hresult
    · obtain ⟨x', hfound', hsame, hnew⟩ :=
        found_after hfound hframe (y := some (n + 1, v.work)) harea
      refine .inl ⟨hok, n + 1, Nat.le_refl _, hholds, hinit.trans h.initOk, ?_, hcount,
        fun _ => rfl⟩
      refine ⟨x', !side, hfound', hkeeps.commit hsame (Nat.lt_succ_self n) hnew, hcur', ?_⟩
      rw [Bool.not_not]
      exact hnext'.trans hcur
    · exact absurd hfate (hfail k found)
    · refine .inr ⟨hcut, hfate, fun hnoticed => ?_⟩
      rcases hnoticed (!side) hnext with hbad | hsame | hfull
      · obtain ⟨x', hfound', hsame, hnew⟩ := found_after hfound hframe (y := none) hbad
        exact .inl (.kept hfound' (hkeeps.tear hsame (.inl hnew)) (Nat.le_succ n))
      · obtain ⟨x', hfound', hkept, hnew⟩ :=
          found_after hfound hframe (Found.of_same hsame (hfound (!side)))
        exact .inl (.kept hfound' (hkeeps.tear hkept (.inr hnew)) (Nat.le_succ n))
      · rw [usedSize_eq h.holds, hprepared] at hfull
        obtain ⟨x', hfound', hsame, hnew⟩ :=
          found_after hfound hframe (y := some (n + 1, v.work)) ⟨hfull, hn⟩
        exact .inr (.kept hfound' (hkeeps.commit hsame (Nat.lt_succ_self n) hnew) (Nat.le_refl _))

/-- One call: it returns, or power is lost in it. -/
theorem run_call (h : Live p s n v) (hn : n + 1 < 0x100000000)
    (hfail : ∀ k found, e.fate k ≠ .failed found) (call : EnvCall) :
    (∃ rc s', (call.perform e p.part).run s = (some rc, s') ∧
        ∃ k, k ≤ n + 1 ∧ Live p s' k (v.perform call)) ∨
      ∃ s', (call.perform e p.part).run s = (none, s') ∧ (∃ k found, e.fate k = .cut found) ∧
        (CutNoticed p s s' → Stored p s'.chip.cells (n + 1) v.stored ∨
          Stored p s'.chip.cells (n + 1) (v.perform call).stored) := by
  cases call with
  | set key value =>
    have hedits := (run_efSetEnv h.holds h.initOk key value).2
    exact .inl ⟨_, _, rfl, n, Nat.le_succ n, Live.edits h hedits⟩
  | del key =>
    have hedits := (run_efDelEnv h.holds h.initOk key).2.2
    exact .inl ⟨_, _, rfl, n, Nat.le_succ n, Live.edits h hedits⟩
  | save =>
    have hsave := run_save h hn hfail
    show (∃ rc s', (efSaveEnv e p.part).run s = (some rc, s') ∧ _) ∨
      ∃ s', (efSaveEnv e p.part).run s = (none, s') ∧ _
    generalize (efSaveEnv e p.part).run s = r at hsave ⊢
    obtain ⟨r, s'⟩ := r
    rcases hsave with ⟨rfl, hlive⟩ | ⟨rfl, hcut⟩
    · exact .inl ⟨_, s', rfl, hlive⟩
    · exact .inr ⟨s', rfl, hcut⟩

/-- The calls of a session, up to the one in which power is lost. -/
theorem run_calls (hfail : ∀ k found, e.fate k ≠ .failed found) (calls : List EnvCall)
    (h : Live p s n v) (hn : n + calls.length < 0x100000000) (hnoticed : CallsNoticed p calls s) :
    ∃ k, (k = returnedCalls e p.part calls s ∨ k = returnedCalls e p.part calls s + 1) ∧
      Stored p ((performCalls e p.part calls).run s).2.chip.cells (n + calls.length)
        ((calls.take k).foldl Vars.perform v).stored := by
  induction calls generalizing s n v with
  | nil => exact ⟨0, .inl rfl, Live.stored h⟩
  | cons call calls ih =>
    rw [List.length_cons] at hn ⊢
    rcases run_call h (by omega) hfail call with ⟨rc, s', hrun, k, hk, hlive⟩ | ⟨s', hrun, _, hcut⟩
    · have hcalls : CallsNoticed p calls s' := by
        rw [CallsNoticed, hrun] at hnoticed
        exact hnoticed
      obtain ⟨j, hj, hstored⟩ := ih hlive (by omega) hcalls
      refine ⟨j + 1, ?_, ?_⟩
      · rw [returnedCalls, hrun]
        dsimp only
        omega
      · rw [performCalls, Powered.run_bind_some hrun, List.take_succ_cons, List.foldl_cons]
        exact Stored.mono hstored (by omega)
    · have hcut' : CutNoticed p s s' := by
        rw [CallsNoticed, hrun] at hnoticed
        exact hnoticed
      rw [performCalls, Powered.run_bind_none hrun, returnedCalls, hrun]
      rcases hcut hcut' with hstored | hstored
      · exact ⟨0, .inl rfl, Stored.mono hstored (by omega)⟩
      · exact ⟨1, .inr rfl, Stored.mono hstored (by omega)⟩

/-- When power lasts, all calls return. -/
theorem returnedCalls_of_some (part : FalPartition) (calls : List EnvCall) {s : Ef} {u : Unit}
    (h : ((performCalls e part calls).run s).1 = some u) :
    returnedCalls e part calls s = calls.length := by
  induction calls generalizing s with
  | nil => rfl
  | cons call calls ih =>
    rw [performCalls, Powered.run_bind] at h
    rw [returnedCalls]
    generalize (call.perform e part).run s = r at h ⊢
    obtain ⟨_ | rc, s'⟩ := r
    · cases h
    · exact congrArg (· + 1) (ih h)

/-! ## A start -/

/-- The newest area is taken, as long as the numbers do not wrap around. -/
theorem selected_of_keeps {x : Shadow.Copies EnvTable} {side : Bool}
    (h : Shadow.Keeps x side n t) (hn : n < 0xFFFFFFFF) : selected x = some (side, n, t) := by
  have hwhole := h.whole
  have holder := h.older
  unfold selected
  cases side with
  | false =>
    cases hother : x true with
    | none => rw [hwhole]
    | some y =>
      have hlt := holder y hother
      rw [hwhole]
      exact if_pos (decide_eq_true (.inl hlt))
  | true =>
    cases hother : x false with
    | none => rw [hwhole]
    | some y =>
      have hlt := holder y hother
      rw [hwhole]
      refine if_neg fun hnewer => ?_
      have hor : y.1 > n ∨ (y.1 = 0 ∧ n = 0xFFFFFFFF) := of_decide_eq_true hnewer
      omega

theorem edits_createDefaults (xs : List (CStr × CStr)) (h : Holds s t) :
    Edits s ((createDefaults xs).run s).2 t (xs.foldl (fun t x => (t.create x.1 x.2).2) t) := by
  induction xs generalizing s t with
  | nil => exact Edits.refl h
  | cons x xs ih =>
    have hcreate := (run_createEnv h x.1 x.2).2
    exact hcreate.trans (ih hcreate.holds)

theorem default_ne_empty : EnvTable.default ≠ EnvTable.empty := by
  intro h
  have hsize : EnvTable.default.size = EnvTable.empty.size := congrArg EnvTable.size h
  revert hsize
  decide

/-- The defaults in memory, before they are saved. -/
theorem run_defaults (hlen : s.envCache.length = envUserSettingSize) {side : Bool}
    (hcur : s.curLoadAreaAddr = areaAddr side) :
    ∃ s', (efEnvSetDefault e p.part).run s = (do
        let result ← efSaveEnv e p.part
        if result = .noErr then
          Powered.modify fun s => { s with envCacheChanged := true }
          efSaveEnv e p.part
        else return result : Powered Ef EfErrCode).run s' ∧
      Holds s' EnvTable.default ∧ s'.word envParamIndexSavedCount = 0 ∧ s'.envCacheChanged = true ∧
      s'.curLoadAreaAddr = areaAddr side ∧ s'.nextSaveAreaAddr = s.nextSaveAreaAddr ∧
      s'.initOk = s.initOk ∧ s'.chip = s.chip := by
  let s1 := setEnvEndAddr s (getEnvDataAddr s)
  let s2 := s1.setWord envParamIndexSavedCount 0
  have hlen0 : s.envCache.length = 2048 := hlen
  have hlen1 : s1.envCache.length = 2048 := (length_patch _ _ _).trans hlen
  have haddr := areaAddr_le side
  have harea : envAreaSize = 8192 := rfl
  have hend : s2.word envParamIndexEndAddr = areaAddr side + envParamByteSize := by
    have hset : s1.word envParamIndexEndAddr = getEnvDataAddr s % 0x100000000 :=
      word_setWord_self s _ (by rw [hlen0]; decide)
    have hdata : getEnvDataAddr s = areaAddr side + envParamByteSize := by
      rw [← hcur]
      rfl
    have hparam : envParamByteSize = 12 := rfl
    rw [word_setWord_ne s1 0 (by decide), hset, hdata]
    omega
  have hholds : Holds s2 EnvTable.empty := by
    refine ⟨(length_patch _ _ _).trans hlen1, ?_, ?_, rfl⟩
    · show s.curLoadAreaAddr ≤ envAreaSize
      omega
    · show s2.word envParamIndexEndAddr = s.curLoadAreaAddr + EnvTable.empty.size
      rw [hend, hcur]
      rfl
  have hedits := edits_createDefaults defaultEnvSet hholds
  refine ⟨((createDefaults defaultEnvSet).run s2).2, ?_, hedits.holds, ?_, ?_,
    hedits.cur.trans hcur, hedits.next, hedits.initOk, hedits.chip⟩
  · rw [efEnvSetDefault, Powered.run_modify_bind, Powered.run_modify_bind, Powered.run_liftProg_bind]
  · rw [hedits.savedCount]
    exact word_setWord_self s1 0 (by rw [hlen1]; decide)
  · rcases hedits.changed with htrue | ⟨_, hsame⟩
    · exact htrue
    · exact absurd hsame default_ne_empty

/-- The defaults go to both areas, or that fails, or power is lost. -/
theorem run_efEnvSetDefault (hlen : s.envCache.length = envUserSettingSize)
    (hcur : s.curLoadAreaAddr = areaAddr true) (hnext : s.nextSaveAreaAddr = areaAddr false) :
    (∃ s', (efEnvSetDefault e p.part).run s = (some .noErr, s') ∧
        Live p { s' with initOk := true } 2 ⟨EnvTable.default, EnvTable.default⟩) ∨
      (∃ k found, e.fate k = .failed found) ∧
        (∃ rc s', (efEnvSetDefault e p.part).run s = (some rc, s') ∧ rc ≠ .noErr) ∨
      (∃ k found, e.fate k = .cut found) ∧ ∃ s', (efEnvSetDefault e p.part).run s = (none, s') := by
  have herr : EfErrCode.eraseErr ≠ .noErr ∧ EfErrCode.writeErr ≠ .noErr := by decide
  obtain ⟨s1, hrun, hholds, hcount, hchanged, hcur1, hnext1, hinit, hchip⟩ :=
    run_defaults (e := e) (p := p) hlen hcur
  rw [hrun, Powered.run_bind]
  have hsave := run_efSaveEnv p hholds (hnext1.trans hnext) hchanged
  generalize (efSaveEnv e p.part).run s1 = r at hsave ⊢
  obtain ⟨r, s2⟩ := r
  have hframe2 := hsave.frame
  have hresult2 := hsave.result
  obtain ⟨hholds2, hcount2, hcur2, hnext2, hinit2, _⟩ := hsave
  rw [hcount] at hcount2 hresult2
  obtain ⟨rfl, _, harea2⟩ | ⟨hfate, herase | hwrite⟩ | ⟨hcut, rfl⟩ := hresult2
  · dsimp only
    rw [if_pos rfl, Powered.run_modify_bind]
    -- the first area is written, and the table is saved once more into the other
    have hholds3 : Holds { s2 with envCacheChanged := true } EnvTable.default :=
      ⟨hholds2.length, hholds2.area, hholds2.endAddr, hholds2.data⟩
    have hsave := run_efSaveEnv p hholds3 (hnext2.trans hcur1) rfl
    generalize (efSaveEnv e p.part).run _ = r at hsave ⊢
    obtain ⟨r, s4⟩ := r
    have hframe4 := hsave.frame
    have hresult4 := hsave.result
    obtain ⟨hholds4, hcount4, hcur4, hnext4, hinit4, _⟩ := hsave
    have hword : ({ s2 with envCacheChanged := true } : Ef).word envParamIndexSavedCount = 1 := hcount2
    rw [hword] at hcount4 hresult4
    obtain ⟨rfl, _, harea4⟩ | ⟨hfate, herase | hwrite⟩ | ⟨hcut, rfl⟩ := hresult4
    · have hfirst : AreaHolds p s4.chip.cells false 1 EnvTable.default :=
        AreaHolds.of_same (areaSame_of_agree hframe4) harea2
      refine .inl ⟨s4, rfl, ⟨hholds4.length, hholds4.area, hholds4.endAddr, hholds4.data⟩, rfl,
        ?_, hcount4, fun _ => rfl⟩
      refine ⟨fun b => if b then some (2, EnvTable.default) else some (1, EnvTable.default), true,
        ?_, ⟨rfl, ?_⟩, hcur4, hnext4.trans hcur2⟩
      · intro b
        cases b
        · exact hfirst
        · exact harea4
      · intro y hy
        rw [← Option.some.inj hy]
        exact Nat.lt_succ_self 1
    · obtain ⟨rfl, _⟩ := herase
      exact .inr (.inl ⟨hfate, _, s4, rfl, herr.1⟩)
    · obtain ⟨rfl, _⟩ := hwrite
      exact .inr (.inl ⟨hfate, _, s4, rfl, herr.2⟩)
    · exact .inr (.inr ⟨hcut, s4, rfl⟩)
  · obtain ⟨rfl, _⟩ := herase
    exact .inr (.inl ⟨hfate, _, s2, rfl, herr.1⟩)
  · obtain ⟨rfl, _⟩ := hwrite
    exact .inr (.inl ⟨hfate, _, s2, rfl, herr.2⟩)
  · exact .inr (.inr ⟨hcut, s2, rfl⟩)

/-- A start from areas of which one is selected. -/
theorem run_start {c : Chip} {x : Shadow.Copies EnvTable} {side : Bool}
    (hfound : ∀ b, Found p c.cells b (x b)) (hsel : selected x = some (side, n, t)) :
    ∃ s, (efEnvInit e p.part).run (Ef.boot c) = (some .noErr, s) ∧ Loaded s side n t ∧
      s.nextSaveAreaAddr = areaAddr (!side) ∧ s.initOk = true ∧ s.chip = c := by
  obtain ⟨s, hrun, ⟨hholds, hcur, hcount⟩, hnext, _, _, hchip⟩ :=
    run_efLoadEnv (s := Ef.boot c) p List.length_replicate hfound hsel
  refine ⟨{ s with initOk := true }, ?_,
    ⟨⟨hholds.length, hholds.area, hholds.endAddr, hholds.data⟩, hcur, hcount⟩, hnext, rfl, hchip⟩
  rw [efEnvInit, Powered.run_bind_some hrun, if_pos rfl]
  rfl

/-- A start: the table in flash is in memory; or the defaults were to be saved to a chip
that has no table, and that failed, or power was lost. -/
theorem run_efEnvInit {c : Chip} (h : Stored p c.cells n t) (hn : n < 0xFFFFFFFF) :
    (∃ s, (efEnvInit e p.part).run (Ef.boot c) = (some .noErr, s) ∧
        ∃ k, k ≤ n + 2 ∧ Live p s k ⟨t, t⟩) ∨
      (∃ k found, e.fate k = .failed found) ∧
        (∃ rc s, (efEnvInit e p.part).run (Ef.boot c) = (some rc, s) ∧ rc ≠ .noErr) ∨
      (∃ k found, e.fate k = .cut found) ∧ t = EnvTable.default ∧
        ∃ s, (efEnvInit e p.part).run (Ef.boot c) = (none, s) := by
  have hlen : (Ef.boot c).envCache.length = envUserSettingSize := List.length_replicate
  cases h with
  | kept found keeps le =>
    obtain ⟨s, hrun, ⟨hholds, hcur, hcount⟩, hnext, hinit, hchip⟩ :=
      run_start found (selected_of_keeps keeps (by omega))
    rw [← hchip] at found
    exact .inl ⟨s, hrun, _, Nat.le_trans le (Nat.le_add_right _ 2), hholds, hinit,
      ⟨_, _, found, keeps, hcur, hnext⟩, hcount, fun _ => rfl⟩
  | blank bad =>
    obtain ⟨s1, hrun, hlen1, hcur, hnext, _, _, _⟩ :=
      run_efLoadEnv_none (s := Ef.boot c) p hlen bad
    rcases run_efEnvSetDefault (p := p) hlen1 hcur hnext with
      ⟨s, hset, hlive⟩ | ⟨hfailed, rc, s, hset, hrc⟩ | ⟨hcut, s, hset⟩
    · refine .inl ⟨{ s with initOk := true }, ?_, 2, Nat.le_add_left 2 n, hlive⟩
      rw [efEnvInit, Powered.run_bind_some (hrun.trans hset), if_pos rfl]
      rfl
    · refine .inr (.inl ⟨hfailed, rc, s, ?_, hrc⟩)
      rw [efEnvInit, Powered.run_bind_some (hrun.trans hset), if_neg hrc]
      rfl
    · refine .inr (.inr ⟨hcut, rfl, s, ?_⟩)
      rw [efEnvInit, Powered.run_bind_none (hrun.trans hset)]

/-- What a start finds that returned without an error. -/
theorem live_of_started {c : Chip} (h : Stored p c.cells n t) (hn : n < 0xFFFFFFFF)
    (hrun : (efEnvInit e p.part).run (Ef.boot c) = (some .noErr, s)) :
    ∃ k, k ≤ n + 2 ∧ Live p s k ⟨t, t⟩ := by
  rcases run_efEnvInit h hn with ⟨s', hrun', k, hk, hlive⟩ | ⟨_, rc, s', hrun', hrc⟩ | ⟨_, _, s', hrun'⟩
  · rw [hrun'] at hrun
    obtain rfl := (Prod.mk.inj hrun).2
    exact ⟨k, hk, hlive⟩
  · rw [hrun'] at hrun
    exact absurd (Option.some.inj (Prod.mk.inj hrun).1) hrc
  · rw [hrun'] at hrun
    cases (Prod.mk.inj hrun).1

/-- What a start leaves when power is lost in it. -/
theorem stored_of_defaultsNoticed {m : Nor.Cells} (h : DefaultsNoticed p m) (n : Nat) :
    Stored p m (n + 2) EnvTable.default := by
  have hkept : ∀ (x : Shadow.Copies EnvTable) (side : Bool), (∀ b, Found p m b (x b)) →
      Shadow.Keeps x side (if side then 2 else 1) EnvTable.default →
      Stored p m (n + 2) EnvTable.default := by
    intro x side hfound hkeeps
    refine .kept hfound hkeeps ?_
    split <;> omega
  rcases h false with hbad0 | hholds0 <;> rcases h true with hbad1 | hholds1
  · exact .blank fun b => by cases b <;> assumption
  · refine hkept (fun b => if b then some (2, EnvTable.default) else none) true ?_ ⟨rfl, ?_⟩
    · intro b
      cases b
      · exact hbad0
      · exact hholds1
    · intro y hy
      cases hy
  · refine hkept (fun b => if b then none else some (1, EnvTable.default)) false ?_ ⟨rfl, ?_⟩
    · intro b
      cases b
      · exact hholds0
      · exact hbad1
    · intro y hy
      cases hy
  · refine hkept (fun b => if b then some (2, EnvTable.default) else some (1, EnvTable.default))
      true ?_ ⟨rfl, ?_⟩
    · intro b
      cases b
      · exact hholds0
      · exact hholds1
    · intro y hy
      rw [← Option.some.inj hy]
      exact Nat.lt_succ_self 1

end

end PowerLemmas

open PowerLemmas

section

variable {e : FlashEnv} (p : EnvPartition e) {n : Nat} {t : EnvTable}

/-- A session leaves the table of the last save that returned, or of the one in which
power was lost. -/
theorem session_stored (hfail : ∀ k found, e.fate k ≠ .failed found) (calls : List EnvCall)
    (c : Chip) (h : Stored p c.cells n t) (hn : n + calls.length + 2 < 0xFFFFFFFF)
    (hnoticed : SessionNoticed p calls c) :
    ∃ k, (k = returnedInSession e p.part calls c ∨ k = returnedInSession e p.part calls c + 1) ∧
      Stored p (sessionChip e p.part calls c).cells (n + calls.length + 2)
        (storedAfter (calls.take k) t) := by
  rcases run_efEnvInit h (by omega) with
    ⟨s, hrun, k, hk, hlive⟩ | ⟨⟨k, found, hfate⟩, _⟩ | ⟨_, rfl, s, hrun⟩
  · have hcalls : CallsNoticed p calls s := by
      rw [SessionNoticed, hrun] at hnoticed
      exact hnoticed
    obtain ⟨j, hj, hstored⟩ := run_calls hfail calls hlive (by omega) hcalls
    refine ⟨j, ?_, ?_⟩
    · rw [returnedInSession, hrun]
      exact hj
    · rw [sessionChip, session, Powered.run_bind_some hrun]
      exact Stored.mono hstored (by omega)
  · exact absurd hfate (hfail k found)
  · have hdefaults : DefaultsNoticed p s.chip.cells := by
      rw [SessionNoticed, hrun] at hnoticed
      exact hnoticed
    refine ⟨0, ?_, ?_⟩
    · rw [returnedInSession, hrun]
      exact .inl rfl
    · rw [sessionChip, session, Powered.run_bind_none hrun]
      exact Stored.mono (stored_of_defaultsNoticed hdefaults n) (by omega)

/-- After any number of sessions, the flash holds the table that the calls lead to. -/
theorem life_stored (hfail : ∀ k found, e.fate k ≠ .failed found) (sessions : List (List EnvCall))
    (c : Chip) (h : Stored p c.cells n t)
    (hn : n + (sessions.flatten.length + 2 * sessions.length) < 0xFFFFFFFF)
    (hnoticed : LifeNoticed p sessions c) :
    ∃ k t', k < 0xFFFFFFFF ∧ Lives e p.part sessions c t t' ∧
      Stored p (lifeChip e p.part sessions c).cells k t' := by
  induction sessions generalizing c n t with
  | nil => exact ⟨n, t, hn, rfl, h⟩
  | cons calls sessions ih =>
    rw [List.flatten_cons, List.length_append, List.length_cons] at hn
    rw [LifeNoticed] at hnoticed
    obtain ⟨hfirst, hrest⟩ := hnoticed
    obtain ⟨j, hj, hstored⟩ := session_stored p hfail calls c h (by omega) hfirst
    obtain ⟨k, t', hk, hlives, hlast⟩ := ih _ hstored (by omega) hrest
    refine ⟨k, t', hk, ?_, ?_⟩
    · rw [Lives]
      exact ⟨j, hj, hlives⟩
    · rw [lifeChip, List.foldl_cons]
      exact hlast

/-- Whenever power is lost, the next start finds every variable as the calls left it that
returned before, with or without the one that was cut off. -/
theorem power_cuts_keep_variables (hfail : ∀ k found, e.fate k ≠ .failed found)
    (sessions : List (List EnvCall)) (c : Chip) (h : Stored p c.cells n t)
    (hn : n + (sessions.flatten.length + 2 * sessions.length) < 0xFFFFFFFF)
    (hnoticed : LifeNoticed p sessions c) :
    ∃ t', Lives e p.part sessions c t t' ∧
      ∀ s, (efEnvInit e p.part).run (Ef.boot (lifeChip e p.part sessions c)) = (some .noErr, s) →
        ∀ k : CStr, k.IsName → envString s k = (t'.get k).map CStr.bytes := by
  obtain ⟨k, t', hk, hlives, hstored⟩ := life_stored p hfail sessions c h hn hnoticed
  refine ⟨t', hlives, fun s hrun key hkey => ?_⟩
  obtain ⟨_, _, hlive⟩ := live_of_started hstored hk hrun
  exact envString_eq hlive.holds hlive.initOk hkey

end

/-! ### An example -/

def boardPartition (fate : Nat → Fate) : EnvPartition (boardFlash fate) where
  part := easyflashPartition
  start := 0x8000
  lies := easyflashPartition_lies fate
  room := by decide
  sectors := show 4096 ∣ 4096 by decide

/-- Area 0 has the table `t`, area 1 was never written. -/
def chipWith {e : FlashEnv} (p : EnvPartition e) (t : EnvTable) : Chip :=
  ⟨Nor.program (Nor.erase e.blkSize (fun _ => 0) (p.base false) t.size) (p.base false)
    (areaText false 1 t), 0⟩

/-- Area 0 has the defaults, area 1 was never written. -/
def boardChip {e : FlashEnv} (p : EnvPartition e) : Chip := chipWith p EnvTable.default

/-- The defaults, and a greeting. -/
def greetedTable : EnvTable := (EnvTable.default.set greetKey greetValue).2

namespace PowerLemmas

section

variable {e : FlashEnv} (p : EnvPartition e)

theorem found_chipWith (t : EnvTable) (b : Bool) :
    Found p (chipWith p t).cells b (if b then none else some (1, t)) := by
  cases b with
  | false => exact areaHolds_program p (fun _ => 0) (by decide) t
  | true =>
    have hsize : t.size ≤ envUserSettingSize := Nat.le_of_lt (size_lt t)
    have htext := length_areaText false 1 t
    have hle : envUserSettingSize ≤ efEraseMinSize := by decide
    obtain ⟨hstart, hspan⟩ := erase_inside p false hsize
    have hframe : Nor.AgreeOutside (fun _ => 0) (chipWith p t).cells (p.base false) efEraseMinSize := by
      refine ((Nor.agreeOutside_erase _ _ _ _).mono ?_ ?_).trans
        ((Nor.agreeOutside_program _ _ _).mono (Int.le_refl _) ?_)
      all_goals omega
    have hsame : AreaSame p (fun _ => 0) (chipWith p t).cells (!false) := areaSame_of_agree hframe
    have hread : Nor.read (fun _ => 0) (p.base true) 4 = [0, 0, 0, 0] := by
      simp [Nor.read, List.range_succ]
    have hend : areaEnd p (fun _ => 0) true = 0 := by
      rw [areaEnd, hread]
      rfl
    have hbad : AreaBad p (fun _ => 0) true := .inl (by rw [hend]; decide)
    exact AreaBad.of_same hsame hbad

theorem keeps_chipWith (t : EnvTable) : Shadow.Keeps
    (fun b => if b then none else some (1, t)) false 1 t where
  whole := rfl
  older x hx := by cases hx

theorem found_boardChip (b : Bool) :
    Found p (boardChip p).cells b (if b then none else some (1, EnvTable.default)) :=
  found_chipWith p EnvTable.default b

theorem stored_chipWith (t : EnvTable) : Stored p (chipWith p t).cells 1 t :=
  .kept (found_chipWith p t) (keeps_chipWith t) (Nat.le_refl 1)

theorem greetedTable_ne : greetedTable ≠ EnvTable.default := by
  intro h
  have hsize : greetedTable.size = EnvTable.default.size := congrArg EnvTable.size h
  revert hsize
  decide

/-- After a start, and the greeting set. -/
theorem greeted : ∃ s s', (efEnvInit e p.part).run (Ef.boot (boardChip p)) = (some .noErr, s) ∧
    ((efSetEnv greetKey (some greetValue)).run s).2 = s' ∧
    Live p s' 1 ⟨greetedTable, EnvTable.default⟩ ∧ s'.curLoadAreaAddr = areaAddr false ∧
    s'.nextSaveAreaAddr = areaAddr true ∧ s'.envCacheChanged = true ∧ s'.chip = boardChip p := by
  obtain ⟨s, hrun, ⟨hholds, hcur, hcount⟩, hnext, hinit, hchip⟩ :=
    run_start (found_boardChip p) (show selected _ = some (false, 1, EnvTable.default) from rfl)
  have hlive : Live p s 1 ⟨EnvTable.default, EnvTable.default⟩ := by
    refine ⟨hholds, hinit, ⟨_, _, ?_, keeps_chipWith _, hcur, hnext⟩, hcount, fun _ => rfl⟩
    rw [hchip]
    exact found_boardChip p
  have hedits := (run_efSetEnv hholds hinit greetKey greetValue).2
  refine ⟨s, _, hrun, rfl, Live.edits hlive hedits, hedits.cur.trans hcur, hedits.next.trans hnext,
    ?_, hedits.chip.trans hchip⟩
  rcases hedits.changed with hchanged | ⟨_, hsame⟩
  · exact hchanged
  · exact absurd hsame greetedTable_ne

variable {p}

/-- A save that is cut off in its erase, which left erased cells. -/
theorem cutNoticed_erased (he : ∀ n, e.fate n = .cut fun _ => 0xFF) {s : Ef} {n : Nat} {v : Vars}
    (h : Live p s n v) (hcut : ((efSaveEnv e p.part).run s).1 = none) :
    CutNoticed p s ((efSaveEnv e p.part).run s).2 := by
  obtain ⟨x, cur, _, _, _, hnext⟩ := h.flash
  intro side hside
  obtain rfl : side = !cur := areaAddr_inj (hside.symm.trans hnext)
  cases hchanged : s.envCacheChanged with
  | false =>
    rw [run_efSaveEnv_unchanged e p.part hchanged] at hcut
    cases hcut
  | true =>
    have hends := (run_efSaveEnv p h.holds hnext hchanged).ends
    generalize (efSaveEnv e p.part).run s = r at hends ⊢
    obtain ⟨r, s'⟩ := r
    dsimp only at hends ⊢
    generalize s'.envCacheChanged = changed at hends
    generalize s'.chip = c at hends ⊢
    have hsize : 4 ≤ v.work.size ∧ v.work.size ≤ envUserSettingSize :=
      ⟨Nat.le_trans (by decide) (Nat.le_add_right envParamByteSize _), Nat.le_of_lt (size_lt v.work)⟩
    cases hends with
    | eraseCut found herase =>
      rw [he] at herase
      obtain rfl := Fate.cut.inj herase
      rw [length_areaText]
      exact .inl (areaBad_erased p _ _ (four_le_span p _ hsize.1 hsize.2))
    | done herase hwrite => rw [he] at herase; cases herase
    | eraseFailed found herase => rw [he] at herase; cases herase
    | writeFailed found herase hwrite => rw [he] at herase; cases herase
    | writeCut found herase hwrite => rw [he] at herase; cases herase

theorem callsNoticed_erased (he : ∀ n, e.fate n = .cut fun _ => 0xFF) (calls : List EnvCall)
    {s : Ef} {n : Nat} {v : Vars} (h : Live p s n v) (hn : n + calls.length < 0x100000000) :
    CallsNoticed p calls s := by
  have hfail : ∀ k found, e.fate k ≠ .failed found := fun k found hfate => by
    rw [he] at hfate
    cases hfate
  induction calls generalizing s n v with
  | nil => trivial
  | cons call calls ih =>
    rw [List.length_cons] at hn
    rcases run_call h (by omega) hfail call with ⟨rc, s', hrun, k, hk, hlive⟩ | ⟨s', hrun, _⟩
    · rw [CallsNoticed, hrun]
      exact ih hlive (by omega)
    · rw [CallsNoticed, hrun]
      cases call with
      | set key value => cases hrun
      | del key => cases hrun
      | save =>
        have hsave : (efSaveEnv e p.part).run s = (none, s') := hrun
        have hcut := cutNoticed_erased he h (by rw [hsave])
        rw [hsave] at hcut
        exact hcut

variable (p)

theorem lifeNoticed_greeting (he : ∀ n, e.fate n = .cut fun _ => 0xFF) :
    LifeNoticed p [[.set greetKey greetValue, .save]] (boardChip p) := by
  have hfail : ∀ k found, e.fate k ≠ .failed found := fun k found hfate => by
    rw [he] at hfate
    cases hfate
  obtain ⟨s, s', hrun, _⟩ := greeted p
  obtain ⟨k, hk, hlive⟩ := live_of_started (stored_chipWith p EnvTable.default) (by decide) hrun
  rw [LifeNoticed, SessionNoticed, hrun]
  exact ⟨callsNoticed_erased he _ hlive (show k + 2 < 0x100000000 by omega), trivial⟩

end

end PowerLemmas

/-- Power is lost while a greeting is saved. -/
theorem power_cuts_keep_variables_greeting :
    ∃ t', Lives (boardFlash fun _ => .cut fun _ => 0xFF) easyflashPartition
        [[.set greetKey greetValue, .save]] (boardChip (boardPartition fun _ => .cut fun _ => 0xFF))
        EnvTable.default t' ∧
      ∀ s, (efEnvInit (boardFlash fun _ => .cut fun _ => 0xFF) easyflashPartition).run
          (Ef.boot (lifeChip (boardFlash fun _ => .cut fun _ => 0xFF) easyflashPartition
            [[.set greetKey greetValue, .save]]
            (boardChip (boardPartition fun _ => .cut fun _ => 0xFF)))) = (some .noErr, s) →
        ∀ k : CStr, k.IsName → envString s k = (t'.get k).map CStr.bytes :=
  power_cuts_keep_variables (boardPartition fun _ => .cut fun _ => 0xFF)
    (fun _ _ h => by cases h) _ _ (stored_chipWith _ _) (by decide)
    (lifeNoticed_greeting _ fun _ => rfl)

end EspushW60x
