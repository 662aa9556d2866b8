/-
  The two passes of a run.

  The first pass only puts samples into the store (`writeAll_eq`): what shows the values and
  whether they are compared do not matter to it.  The second pass leaves the store as it is.  For
  each sample it reads, then shows, then compares, and the four ways in which this ends are the
  four lemmas on `readAll`.
-/
import SealedStore.Harness.Run

namespace SealedStore

theorem except_map_eq_ok {ε α β : Type} {x : Except ε α} {f : α → β} {b : β} :
    x.map f = .ok b ↔ ∃ a, x = .ok a ∧ f a = b := by
  cases x with
  | error e => simp [Except.map]
  | ok a => simp [Except.map]

theorem except_map_eq_error {ε α β : Type} {x : Except ε α} {f : α → β} {e : ε} :
    x.map f = .error e ↔ x = .error e := by
  cases x with
  | error e => simp [Except.map]
  | ok a => simp [Except.map]

/-! ## Many values at once -/

/-- Puts samples in order, and gives the sizes of their blobs. -/
def Store.putAll {σ : Type} [Store σ] (store : σ) : List Sample → Except StoreError (List Nat) × σ
  | [] => (.ok [], store)
  | sample :: samples =>
    match put store sample.slot sample.value with
    | (.error e, next) => (.error e, next)
    | (.ok size, next) =>
      match putAll next samples with
      | (sizes, last) => (sizes.map (size :: ·), last)

/-- As many samples are put as there are sizes. -/
theorem Store.length_of_putAll {σ : Type} [Store σ] {store : σ} {samples : List Sample}
    {sizes : List Nat} (h : (putAll store samples).1 = .ok sizes) :
    sizes.length = samples.length := by
  induction samples generalizing store sizes with
  | nil =>
    obtain rfl := Except.ok.inj h
    rfl
  | cons sample samples ih =>
    rw [putAll] at h
    split at h
    · nomatch h
    · obtain ⟨rest, hrest, rfl⟩ := except_map_eq_ok.mp h
      exact congrArg (· + 1) (ih hrest)

/-- Shows values in order. -/
def Renderer.renderAll {ρ : Type} [Renderer ρ] (renderer : ρ) :
    List (SlotName × Value) → Except RenderFault Unit × ρ
  | [] => (.ok (), renderer)
  | (slot, v) :: rest =>
    match render renderer slot v with
    | (.error fault, next) => (.error fault, next)
    | (.ok (), next) => renderAll next rest

theorem Renderer.renderAll_cons {ρ : Type} [Renderer ρ] {renderer next : ρ} {slot : SlotName}
    {v : Value} (h : render renderer slot v = (.ok (), next)) (rest : List (SlotName × Value)) :
    renderAll renderer ((slot, v) :: rest) = renderAll next rest := by
  simp only [renderAll, h]

namespace Harness

variable {σ ρ : Type} [Store σ] [Renderer ρ]

/-! ## Writing -/

omit [Renderer ρ] in
/-- **The first pass of a run puts the samples.** -/
theorem writeAll_eq (h : Harness σ ρ) (samples : List Sample) :
    h.writeAll samples =
      ((Store.putAll h.store samples).1.mapError .store,
        { h with store := (Store.putAll h.store samples).2 }) := by
  induction samples generalizing h with
  | nil => rfl
  | cons sample samples ih =>
    rw [writeAll, write, Store.putAll]
    rcases Store.put h.store sample.slot sample.value with ⟨e | size, next⟩
    · rfl
    · simp only [ih]
      rcases Store.putAll next samples with ⟨e | sizes, last⟩
      · rfl
      · rfl

/-! ## Reading -/

/-- A sample gives no value, or one that is not shown, or one that is. -/
theorem reading_cases (store : σ) (renderer : ρ) (sample : Sample) :
    (∃ e, Store.get store sample.slot = .error e) ∨
      (∃ v fault next, Store.get store sample.slot = .ok v ∧
        Renderer.render renderer sample.slot v = (.error fault, next)) ∨
      ∃ v next, Store.get store sample.slot = .ok v ∧
        Renderer.render renderer sample.slot v = (.ok (), next) := by
  cases hget : Store.get store sample.slot with
  | error e => exact .inl ⟨e, rfl⟩
  | ok v =>
    rcases hshow : Renderer.render renderer sample.slot v with ⟨fault | ⟨⟩, next⟩
    · exact .inr (.inl ⟨v, fault, next, rfl, hshow⟩)
    · exact .inr (.inr ⟨v, next, rfl, hshow⟩)

section
variable {store : σ} {renderer next : ρ} {verify : Bool} {sample : Sample} {v : Value}
  (bytes : Nat) (rest : List (Sample × Nat))

/-- A slot that gives no value ends the pass. -/
theorem readAll_of_get_error {e : StoreError} (hget : Store.get store sample.slot = .error e) :
    readAll ⟨store, renderer, verify⟩ ((sample, bytes) :: rest) =
      (.error (.store e), ⟨store, renderer, verify⟩) := by
  simp only [readAll, read, hget]

/-- So does a value that is not shown. -/
theorem readAll_of_render_error {fault : RenderFault}
    (hget : Store.get store sample.slot = .ok v)
    (hshow : Renderer.render renderer sample.slot v = (.error fault, next)) :
    readAll ⟨store, renderer, verify⟩ ((sample, bytes) :: rest) =
      (.error (.render sample.slot fault), ⟨store, next, verify⟩) := by
  simp only [readAll, read, hget, hshow]

/-- A value that is different ends the pass when it verifies.  It has been shown by then. -/
theorem readAll_of_difference (hget : Store.get store sample.slot = .ok v)
    (hshow : Renderer.render renderer sample.slot v = (.ok (), next))
    (hdiff : v.sameAs sample.value = false) :
    readAll ⟨store, renderer, true⟩ ((sample, bytes) :: rest) =
      (.error (.mismatch sample.slot sample.value v), ⟨store, next, true⟩) := by
  simp only [readAll, read, hget, hshow, hdiff]
  rfl

/-- Otherwise the pass goes on and the value is reported. -/
theorem readAll_of_render (hget : Store.get store sample.slot = .ok v)
    (hshow : Renderer.render renderer sample.slot v = (.ok (), next))
    (hok : verify = true → v.sameAs sample.value = true) :
    readAll ⟨store, renderer, verify⟩ ((sample, bytes) :: rest) =
      ((readAll ⟨store, next, verify⟩ rest).1.map
          (⟨sample.slot, bytes, v, v.sameAs sample.value⟩ :: ·),
        (readAll ⟨store, next, verify⟩ rest).2) := by
  have hgoes : (verify && !v.sameAs sample.value) = false := by
    cases verify with
    | false => rfl
    | true => simp [hok rfl]
  simp only [readAll, read, hget, hshow, hgoes]
  rcases readAll ⟨store, next, verify⟩ rest with ⟨e | entries, h⟩
  · rfl
  · rfl

end

/-- **The second pass leaves the store as it is.** -/
theorem store_readAll (h : Harness σ ρ) (xs : List (Sample × Nat)) :
    (h.readAll xs).2.store = h.store := by
  induction xs generalizing h with
  | nil => rfl
  | cons x xs ih =>
    obtain ⟨store, renderer, verify⟩ := h
    obtain ⟨sample, bytes⟩ := x
    rcases reading_cases store renderer sample with
      ⟨e, hget⟩ | ⟨v, fault, next, hget, hshow⟩ | ⟨v, next, hget, hshow⟩
    · rw [readAll_of_get_error bytes xs hget]
    · rw [readAll_of_render_error bytes xs hget hshow]
    · by_cases hok : verify = true → v.sameAs sample.value = true
      · rw [readAll_of_render bytes xs hget hshow hok]
        exact ih ⟨store, next, verify⟩
      · obtain ⟨rfl, hdiff⟩ := Classical.not_imp.mp hok
        rw [readAll_of_difference bytes xs hget hshow (Bool.eq_false_iff.mpr hdiff)]

/-! ## Both -/

/-- A run whose writing fails reads nothing. -/
theorem run_of_putAll_error {store next : σ} {renderer : ρ} {verify : Bool} {samples : List Sample}
    {e : StoreError} (hput : Store.putAll store samples = (.error e, next)) :
    run ⟨store, renderer, verify⟩ samples = (.error (.store e), ⟨next, renderer, verify⟩) := by
  rw [run, writeAll_eq, hput]
  rfl

/-- A run that has written reports what it reads. -/
theorem run_of_putAll {store next : σ} {renderer : ρ} {verify : Bool} {samples : List Sample}
    {sizes : List Nat} (hput : Store.putAll store samples = (.ok sizes, next)) :
    run ⟨store, renderer, verify⟩ samples =
      ((readAll ⟨next, renderer, verify⟩ (samples.zip sizes)).1.map RunReport.mk,
        (readAll ⟨next, renderer, verify⟩ (samples.zip sizes)).2) := by
  have hwrite :
      writeAll ⟨store, renderer, verify⟩ samples = (.ok sizes, ⟨next, renderer, verify⟩) := by
    rw [writeAll_eq, hput]
    rfl
  simp only [run, hwrite]
  rcases readAll ⟨next, renderer, verify⟩ (samples.zip sizes) with ⟨e | entries, h⟩
  · rfl
  · rfl

/-! ## Showing in another way -/

/-- A harness with the image of what shows its values. -/
def mapRenderer {σ ρ τ : Type} (f : ρ → τ) (h : Harness σ ρ) : Harness σ τ :=
  ⟨h.store, f h.renderer, h.verify⟩

section
variable {τ : Type} [Renderer τ] {f : ρ → τ}
  (hf : ∀ renderer slot v, Renderer.render (f renderer) slot v =
    (Renderer.render renderer slot v).map id f)
include hf

/-- The second pass takes the same course with a renderer and with its image.  A sample goes one of
    three ways: it is not read, it is not shown, or it is shown and compared. -/
theorem readAll_mapRenderer (store : σ) (renderer : ρ) (verify : Bool) (xs : List (Sample × Nat)) :
    readAll ⟨store, f renderer, verify⟩ xs =
      (readAll ⟨store, renderer, verify⟩ xs).map id (mapRenderer f) := by
  induction xs generalizing renderer with
  | nil => rfl
  | cons x xs ih =>
    obtain ⟨sample, bytes⟩ := x
    rcases reading_cases store renderer sample with
      ⟨e, hget⟩ | ⟨v, fault, next, hget, hshow⟩ | ⟨v, next, hget, hshow⟩
    · rw [readAll_of_get_error bytes xs hget, readAll_of_get_error bytes xs hget]
      rfl
    · have hshow' : Renderer.render (f renderer) sample.slot v = (.error fault, f next) := by
        rw [hf, hshow]
        rfl
      rw [readAll_of_render_error bytes xs hget hshow, readAll_of_render_error bytes xs hget hshow']
      rfl
    · have hshow' : Renderer.render (f renderer) sample.slot v = (.ok (), f next) := by
        rw [hf, hshow]
        rfl
      by_cases hok : verify = true → v.sameAs sample.value = true
      · rw [readAll_of_render bytes xs hget hshow hok,
          readAll_of_render bytes xs hget hshow' hok, ih]
        rfl
      · obtain ⟨rfl, hdiff⟩ := Classical.not_imp.mp hok
        have hdiff := Bool.eq_false_iff.mpr hdiff
        rw [readAll_of_difference bytes xs hget hshow hdiff,
          readAll_of_difference bytes xs hget hshow' hdiff]
        rfl

/-- **Runs that show values in the same way end in the same way.** -/
theorem run_mapRenderer (store : σ) (renderer : ρ) (verify : Bool) (samples : List Sample) :
    run ⟨store, f renderer, verify⟩ samples =
      (run ⟨store, renderer, verify⟩ samples).map id (mapRenderer f) := by
  rcases hput : Store.putAll store samples with ⟨e | sizes, next⟩
  · rw [run_of_putAll_error hput, run_of_putAll_error hput]
    rfl
  · rw [run_of_putAll hput, run_of_putAll hput, readAll_mapRenderer hf]
    rfl

end

end Harness

end SealedStore
