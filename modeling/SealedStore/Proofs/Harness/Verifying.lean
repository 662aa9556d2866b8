/-
  Runs that verify and runs that do not.

  Two runs over the same samples start alike, and only one of them verifies.  Their first passes
  are the same, and so are their second passes up to the first value that is read back different:
  there the verifying run stops, with that value shown, and the other goes on.  Whatever else ends
  one of them ends both (`readAll_alike_or_stops`).  Nothing is asked of the store or of what
  shows the values, so a store may give back anything.
-/
import Mathlib.Data.List.Forall2
import SealedStore.Proofs.Harness.Passes
import SealedStore.Store.Memory
import SealedStore.Store.Substituting

namespace SealedStore

variable {σ ρ : Type} [Store σ] [Renderer ρ]

/-- What a store gives for a sample, to be shown in its slot. -/
def Reloads (store : σ) (sample : Sample) (shown : SlotName × Value) : Prop :=
  shown.1 = sample.slot ∧ Store.get store sample.slot = .ok shown.2

/-- Of all samples the first that is read back different is this one, written to a slot and found
    as another value; those before it are shown as they were written. -/
def FirstDifference (store : σ) (samples : List Sample) (slot : SlotName) (written found : Value)
    (before : List (SlotName × Value)) : Prop :=
  ∃ same rest, samples = same ++ ⟨slot, written⟩ :: rest ∧
    List.Forall₂ (fun sample shown => Reloads store sample shown ∧
      shown.2.sameAs sample.value = true) same before ∧
    Store.get store slot = .ok found ∧ found.sameAs written = false

/-- The first sample is the first difference if it is read differently. -/
theorem FirstDifference.head {store : σ} {sample : Sample} {found : Value}
    (hget : Store.get store sample.slot = .ok found) (hdiff : found.sameAs sample.value = false)
    (samples : List Sample) :
    FirstDifference store (sample :: samples) sample.slot sample.value found [] :=
  ⟨[], samples, rfl, .nil, hget, hdiff⟩

/-- It is the same difference behind a sample that is read as it was written. -/
theorem FirstDifference.tail {store : σ} {samples : List Sample} {slot : SlotName}
    {written found : Value} {before : List (SlotName × Value)}
    (h : FirstDifference store samples slot written found before) {sample : Sample} {v : Value}
    (hget : Store.get store sample.slot = .ok v) (hsame : v.sameAs sample.value = true) :
    FirstDifference store (sample :: samples) slot written found ((sample.slot, v) :: before) := by
  obtain ⟨same, rest, rfl, hbefore, hfound⟩ := h
  exact ⟨sample :: same, rest, rfl, .cons ⟨⟨rfl, hget⟩, hsame⟩ hbefore, hfound⟩

namespace Harness

/-! ## The second pass -/

/-- Two passes, of which the first verifies, end alike: no value was different. -/
structure Alike (on off : Except HarnessError (List RunEntry) × Harness σ ρ) : Prop where
  result : on.1 = off.1
  renderer : on.2.renderer = off.2.renderer
  goesOn : ∀ slot written found, on.1 ≠ .error (.mismatch slot written found)
  matched : ∀ entries, off.1 = .ok entries → ∀ entry ∈ entries, entry.matched = true

/-- Of two passes the first stops at a value that is different. -/
structure Stops (store : σ) (renderer : ρ) (samples : List Sample)
    (on off : Except HarnessError (List RunEntry) × Harness σ ρ) (slot : SlotName)
    (written found : Value) : Prop where
  result : on.1 = .error (.mismatch slot written found)
  difference : ∃ before, FirstDifference store samples slot written found before ∧
    Renderer.renderAll renderer (before ++ [(slot, found)]) = (.ok (), on.2.renderer)
  unmatched : ∀ entries, off.1 = .ok entries → ∃ entry ∈ entries, entry.matched = false

section
variable {store : σ} {renderer next : ρ} {sample : Sample} {v : Value}
  (bytes : Nat) {xs : List (Sample × Nat)}

/-- A value that is different makes the verifying pass stop. -/
theorem stops_head (hget : Store.get store sample.slot = .ok v)
    (hshow : Renderer.render renderer sample.slot v = (.ok (), next))
    (hdiff : v.sameAs sample.value = false) :
    Stops store renderer (sample :: xs.map Prod.fst)
      (readAll ⟨store, renderer, true⟩ ((sample, bytes) :: xs))
      (readAll ⟨store, renderer, false⟩ ((sample, bytes) :: xs))
      sample.slot sample.value v := by
  rw [readAll_of_difference bytes xs hget hshow hdiff,
    readAll_of_render bytes xs hget hshow fun h => absurd h Bool.false_ne_true]
  refine ⟨rfl, ⟨[], .head hget hdiff _, ?_⟩, ?_⟩
  · exact Renderer.renderAll_cons hshow []
  · intro entries hentries
    obtain ⟨rest, -, rfl⟩ := except_map_eq_ok.mp hentries
    exact ⟨_, List.mem_cons_self, hdiff⟩

/-- A value that is the same leaves both passes to the samples behind it. -/
theorem alike_cons (hget : Store.get store sample.slot = .ok v)
    (hshow : Renderer.render renderer sample.slot v = (.ok (), next))
    (hsame : v.sameAs sample.value = true)
    (h : Alike (readAll ⟨store, next, true⟩ xs) (readAll ⟨store, next, false⟩ xs)) :
    Alike (readAll ⟨store, renderer, true⟩ ((sample, bytes) :: xs))
      (readAll ⟨store, renderer, false⟩ ((sample, bytes) :: xs)) := by
  rw [readAll_of_render bytes xs hget hshow fun _ => hsame,
    readAll_of_render bytes xs hget hshow fun _ => hsame]
  obtain ⟨hresult, hrenderer, hgoesOn, hmatched⟩ := h
  refine ⟨?_, hrenderer, ?_, ?_⟩
  · rw [hresult]
  · intro slot written found heq
    exact hgoesOn slot written found (except_map_eq_error.mp heq)
  · intro entries hentries
    obtain ⟨rest, hrest, rfl⟩ := except_map_eq_ok.mp hentries
    exact List.forall_mem_cons.mpr ⟨hsame, hmatched rest hrest⟩

/-- A sample that is read as it was written stands in front of the first difference, and is shown
    before it. -/
theorem stops_cons {slot : SlotName} {written found : Value}
    (hget : Store.get store sample.slot = .ok v)
    (hshow : Renderer.render renderer sample.slot v = (.ok (), next))
    (hsame : v.sameAs sample.value = true)
    (h : Stops store next (xs.map Prod.fst) (readAll ⟨store, next, true⟩ xs)
      (readAll ⟨store, next, false⟩ xs) slot written found) :
    Stops store renderer (sample :: xs.map Prod.fst)
      (readAll ⟨store, renderer, true⟩ ((sample, bytes) :: xs))
      (readAll ⟨store, renderer, false⟩ ((sample, bytes) :: xs)) slot written found := by
  rw [readAll_of_render bytes xs hget hshow fun _ => hsame,
    readAll_of_render bytes xs hget hshow fun _ => hsame]
  obtain ⟨hresult, ⟨before, hdiff, hrender⟩, hunmatched⟩ := h
  refine ⟨?_, ⟨(sample.slot, v) :: before, hdiff.tail hget hsame, ?_⟩, ?_⟩
  · rw [hresult]
    rfl
  · exact (Renderer.renderAll_cons hshow _).trans hrender
  · intro entries hentries
    obtain ⟨rest, hrest, rfl⟩ := except_map_eq_ok.mp hentries
    obtain ⟨entry, hmem, hentry⟩ := hunmatched rest hrest
    exact ⟨entry, List.mem_cons_of_mem _ hmem, hentry⟩

end

/-- **The second passes end alike, or the verifying one stops at the first difference.** -/
theorem readAll_alike_or_stops (store : σ) (renderer : ρ) (xs : List (Sample × Nat)) :
    Alike (readAll ⟨store, renderer, true⟩ xs) (readAll ⟨store, renderer, false⟩ xs) ∨
      ∃ slot written found, Stops store renderer (xs.map Prod.fst)
        (readAll ⟨store, renderer, true⟩ xs) (readAll ⟨store, renderer, false⟩ xs)
        slot written found := by
  induction xs generalizing renderer with
  | nil =>
    refine .inl ⟨rfl, rfl, nofun, fun entries hentries => ?_⟩
    obtain rfl := Except.ok.inj hentries
    nofun
  | cons x xs ih =>
    obtain ⟨sample, bytes⟩ := x
    rcases reading_cases store renderer sample with
      ⟨e, hget⟩ | ⟨v, fault, next, hget, hshow⟩ | ⟨v, next, hget, hshow⟩
    · rw [readAll_of_get_error bytes xs hget, readAll_of_get_error bytes xs hget]
      exact .inl ⟨rfl, rfl, nofun, nofun⟩
    · rw [readAll_of_render_error bytes xs hget hshow, readAll_of_render_error bytes xs hget hshow]
      exact .inl ⟨rfl, rfl, nofun, nofun⟩
    · cases hsame : v.sameAs sample.value with
      | false => exact .inr ⟨_, _, _, stops_head bytes hget hshow hsame⟩
      | true =>
        rcases ih next with halike | ⟨slot, written, found, hstops⟩
        · exact .inl (alike_cons bytes hget hshow hsame halike)
        · exact .inr ⟨slot, written, found, stops_cons bytes hget hshow hsame hstops⟩

/-- A pass that does not verify never stops at a difference. -/
theorem readAll_goesOn (store : σ) (renderer : ρ) (xs : List (Sample × Nat)) (slot : SlotName)
    (written found : Value) :
    (readAll ⟨store, renderer, false⟩ xs).1 ≠ .error (.mismatch slot written found) := by
  induction xs generalizing renderer with
  | nil => nofun
  | cons x xs ih =>
    obtain ⟨sample, bytes⟩ := x
    rcases reading_cases store renderer sample with
      ⟨e, hget⟩ | ⟨v, fault, next, hget, hshow⟩ | ⟨v, next, hget, hshow⟩
    · rw [readAll_of_get_error bytes xs hget]
      nofun
    · rw [readAll_of_render_error bytes xs hget hshow]
      nofun
    · rw [readAll_of_render bytes xs hget hshow fun h => absurd h Bool.false_ne_true]
      intro h
      exact ih next (except_map_eq_error.mp h)

/-! ## Whole runs -/

/-- What a run `on` that verifies has to do with a run `off` that does not. -/
structure VerifiesAs (renderer : ρ) (samples : List Sample)
    (on off : Except HarnessError RunReport × Harness σ ρ) : Prop where
  /-- It succeeds with the report of the other, if that tells of no difference. -/
  ok : ∀ report, on.1 = .ok report ↔ off.1 = .ok report ∧ report.mismatches = 0
  /-- The other never stops at a difference. -/
  goesOn : ∀ slot written found, off.1 ≠ .error (.mismatch slot written found)
  /-- A difference at which it stops is the first, and just the values up to it are shown. -/
  stops : ∀ slot written found, on.1 = .error (.mismatch slot written found) →
    ∃ before, FirstDifference off.2.store samples slot written found before ∧
      Renderer.renderAll renderer (before ++ [(slot, found)]) = (.ok (), on.2.renderer)
  /-- Whatever else ends it ends the other, with the same values shown. -/
  otherwise : (∀ slot written found, on.1 ≠ .error (.mismatch slot written found)) →
    on.1 = off.1 ∧ on.2.renderer = off.2.renderer
  /-- Both leave the same store. -/
  store : on.2.store = off.2.store

theorem mismatches_eq_zero_iff {entries : List RunEntry} :
    RunReport.mismatches ⟨entries⟩ = 0 ↔ ∀ entry ∈ entries, entry.matched = true := by
  simp [RunReport.mismatches, List.countP_eq_zero]

omit [Store σ] [Renderer ρ] in
/-- Passes that end alike make runs that end alike. -/
theorem Alike.ok_iff {on off : Except HarnessError (List RunEntry) × Harness σ ρ}
    (h : Alike on off) (report : RunReport) :
    on.1.map RunReport.mk = .ok report ↔
      off.1.map RunReport.mk = .ok report ∧ report.mismatches = 0 := by
  rw [h.result]
  refine ⟨fun heq => ⟨heq, ?_⟩, And.left⟩
  obtain ⟨entries, hentries, rfl⟩ := except_map_eq_ok.mp heq
  exact mismatches_eq_zero_iff.mpr (h.matched entries hentries)

/-- A pass that stops makes a run fail, and the report of the other tells of a difference. -/
theorem Stops.ok_iff {store : σ} {renderer : ρ} {samples : List Sample}
    {on off : Except HarnessError (List RunEntry) × Harness σ ρ} {slot : SlotName}
    {written found : Value} (h : Stops store renderer samples on off slot written found)
    (report : RunReport) :
    on.1.map RunReport.mk = .ok report ↔
      off.1.map RunReport.mk = .ok report ∧ report.mismatches = 0 := by
  rw [h.result]
  refine ⟨nofun, fun ⟨heq, hzero⟩ => ?_⟩
  obtain ⟨entries, hentries, rfl⟩ := except_map_eq_ok.mp heq
  obtain ⟨entry, hmem, hunmatched⟩ := h.unmatched entries hentries
  rw [mismatches_eq_zero_iff.mp hzero entry hmem] at hunmatched
  nomatch hunmatched

/-- **A run that verifies is one that does not, up to the first difference.** -/
theorem run_verifiesAs (store : σ) (renderer : ρ) (samples : List Sample) :
    VerifiesAs renderer samples (run ⟨store, renderer, true⟩ samples)
      (run ⟨store, renderer, false⟩ samples) := by
  rcases hput : Store.putAll store samples with ⟨e | sizes, next⟩
  · rw [run_of_putAll_error hput, run_of_putAll_error hput]
    exact ⟨fun report => by simp, nofun, nofun, fun _ => ⟨rfl, rfl⟩, rfl⟩
  rw [run_of_putAll hput, run_of_putAll hput]
  have hsizes : sizes.length = samples.length :=
    Store.length_of_putAll (congrArg Prod.fst hput)
  have hsamples : (samples.zip sizes).map Prod.fst = samples :=
    List.map_fst_zip (Nat.le_of_eq hsizes.symm)
  have hon := store_readAll ⟨next, renderer, true⟩ (samples.zip sizes)
  have hoff := store_readAll ⟨next, renderer, false⟩ (samples.zip sizes)
  have hgoes := readAll_goesOn next renderer (samples.zip sizes)
  have hends := readAll_alike_or_stops next renderer (samples.zip sizes)
  rw [hsamples] at hends
  generalize readAll ⟨next, renderer, true⟩ (samples.zip sizes) = on at hon hends ⊢
  generalize readAll ⟨next, renderer, false⟩ (samples.zip sizes) = off at hoff hgoes hends ⊢
  have hgoesOn : ∀ slot written found,
      off.1.map RunReport.mk ≠ .error (.mismatch slot written found) := by
    intro slot written found heq
    exact hgoes slot written found (except_map_eq_error.mp heq)
  rcases hends with halike | ⟨s, w, f, hstops⟩
  · refine ⟨halike.ok_iff, hgoesOn, ?_, fun _ => ⟨?_, halike.renderer⟩, hon.trans hoff.symm⟩
    · intro slot written found heq
      exact absurd (except_map_eq_error.mp heq) (halike.goesOn slot written found)
    · rw [halike.result]
  · refine ⟨hstops.ok_iff, hgoesOn, ?_, fun hne => ?_, hon.trans hoff.symm⟩
    · intro slot written found heq
      have hsame := (except_map_eq_error.mp heq).symm.trans hstops.result
      obtain ⟨rfl, rfl, rfl⟩ := HarnessError.mismatch.inj (Except.error.inj hsame)
      rw [hoff]
      exact hstops.difference
    · exact absurd (except_map_eq_error.mpr hstops.result) (hne s w f)

-- A slot that was given another blob than its own is shown and then found to be different.
set_option maxRecDepth 20000 in
example :
    let slot : SlotName := ⟨"a", by decide⟩
    let store : SubstitutingStore MemoryStore :=
      ⟨.empty, [(slot, (Frame.pack (.int 2)).toOption.getD [])]⟩
    let (result, h) := run ⟨store, Collector.mk [], true⟩ [⟨slot, .int 1⟩]
    result = .error (.mismatch slot (.int 1) (.int 2)) ∧
      h.renderer.rendered = [(slot, .int 2)] := by
  exact ⟨rfl, rfl⟩

end Harness

end SealedStore
