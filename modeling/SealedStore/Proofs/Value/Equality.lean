/-
  Two ways to compare values.

  A value is its `frame`, the floats that it is itself (`floats`, at most one) and its members
  (`eq_of_parts`).  `sameAs` is equality of all three.  `equals` asks for equal frames and compares
  floats as numbers and members by `equals` again (`equals_iff`), so every law of `equals` is the
  same law of numbers, carried up by induction on members: symmetry and transitivity hold of all
  values, reflexivity of those without a NaN.  The two differ at NaNs and zeros only: a NaN is the
  same as itself and equals nothing, and the zeros equal each other and are not the same.
-/
import Mathlib.Data.List.Forall2
import SealedStore.Proofs.Value.Members

namespace SealedStore

/-! ## Numbers -/

namespace Float64

variable {a b c : UInt64}

theorem equals_iff :
    equals a b = true ↔
      isNaN a = false ∧ isNaN b = false ∧ (a = b ∨ isZero a = true ∧ isZero b = true) := by
  simp [equals, and_assoc]

theorem equals_comm (a b : UInt64) : equals a b = equals b a := by
  unfold equals
  rw [Bool.and_comm (!isNaN a), Bool.and_comm (isZero a), BEq.comm]

theorem equals_trans (hab : equals a b = true) (hbc : equals b c = true) : equals a c = true := by
  rw [equals_iff] at hab hbc ⊢
  obtain ⟨ha, -, hab⟩ := hab
  obtain ⟨-, hc, hbc⟩ := hbc
  refine ⟨ha, hc, ?_⟩
  rcases hab with rfl | ⟨ha, hb⟩
  · exact hbc
  · rcases hbc with rfl | ⟨-, hc⟩
    · exact .inr ⟨ha, hb⟩
    · exact .inr ⟨ha, hc⟩

/-- A number equals itself unless it is a NaN. -/
theorem equals_self_iff : equals a a = true ↔ isNaN a = false := by
  simp [equals_iff]

/-- Equal numbers are one unless they are zeros. -/
theorem eq_of_equals (hzero : isZero a = false) (h : equals a b = true) : a = b := by
  obtain ⟨-, -, heq | ⟨ha, -⟩⟩ := equals_iff.mp h
  · exact heq
  · rw [hzero] at ha
    nomatch ha

end Float64

namespace Value

/-! ## The parts of a value -/

/-- The bits of a float.  Other kinds have none, whatever lies in them. -/
def floats : Value → List UInt64
  | float bits => [bits]
  | _ => []

/-- What is left of a value without its floats and its members: the kind of a container, the names
    of a record, and all of any other value. -/
def frame : Value → Value
  | float _ => float 0
  | tuple _ => tuple []
  | list _ => list []
  | dict _ => dict []
  | record cls fields => record cls (fields.map fun f => (f.1, none))
  | v => v

/-- Of a record the frame has the class and the names. -/
theorem frame_record_inj {c d : String} {fs gs : List (String × Value)} :
    frame (record c fs) = frame (record d gs) ↔ c = d ∧ fs.map (·.1) = gs.map (·.1) := by
  have hnames : (fs.map fun f => (f.1, none)) = (gs.map fun f => (f.1, none)) ↔
      fs.map (·.1) = gs.map (·.1) := by
    have hinj : Function.Injective fun name : String => (name, none) :=
      fun _ _ h => (Prod.mk.inj h).1
    rw [← List.map_inj_right hinj, List.map_map, List.map_map]
    rfl
  rw [frame, frame, record.injEq, hnames]

/-- Values with equal keys and values in turns are the members of one dictionary. -/
theorem members_dict_inj {es fs : List (Value × Value)}
    (h : members (dict es) = members (dict fs)) : es = fs := by
  induction es generalizing fs with
  | nil =>
    cases fs with
    | nil => rfl
    | cons f fs => nomatch h
  | cons e es ih =>
    cases fs with
    | nil => nomatch h
    | cons f fs =>
      rw [members_dict_cons, members_dict_cons, List.cons.injEq, List.cons.injEq] at h
      obtain ⟨hkey, hvalue, hrest⟩ := h
      rw [ih hrest, Prod.ext hkey hvalue]

/-- **A value is its frame, its floats and its members.** -/
theorem eq_of_parts {x y : Value} (hframe : x.frame = y.frame) (hfloats : x.floats = y.floats)
    (hmembers : x.members = y.members) : x = y := by
  cases x with
  | float a =>
    cases y with
    | float b => rw [List.head_eq_of_cons_eq hfloats]
    | _ => nomatch hframe
  | tuple xs =>
    cases y with
    | tuple ys => exact congrArg tuple hmembers
    | _ => nomatch hframe
  | list xs =>
    cases y with
    | list ys => exact congrArg list hmembers
    | _ => nomatch hframe
  | dict es =>
    cases y with
    | dict fs => exact congrArg dict (members_dict_inj hmembers)
    | _ => nomatch hframe
  | record c fs =>
    cases y with
    | record d gs =>
      obtain ⟨rfl, hnames⟩ := frame_record_inj.mp hframe
      have hfields : fs = gs :=
        (List.zip_of_prod hnames hmembers).trans (List.zip_of_prod rfl rfl).symm
      rw [hfields]
    | _ => nomatch hframe
  | _ => cases y <;> first | exact hframe | nomatch hframe

/-! ## Comparison part by part -/

section
variable {α : Type} {R S : α → α → Prop} {xs ys zs : List α}

theorem forall₂_imp_of_mem (h : ∀ x ∈ xs, ∀ y, R x y → S x y) (hR : List.Forall₂ R xs ys) :
    List.Forall₂ S xs ys :=
  ((List.forall₂_and_left xs ys).mpr ⟨h, hR⟩).imp fun _ y hxy => hxy.1 y hxy.2

theorem forall₂_trans_of_mem (h : ∀ x ∈ xs, ∀ y z, R x y → R y z → R x z)
    (hxy : List.Forall₂ R xs ys) (hyz : List.Forall₂ R ys zs) : List.Forall₂ R xs zs := by
  induction hxy generalizing zs with
  | nil => exact hyz
  | cons hfirst _ ih =>
    obtain ⟨hxs, hrest⟩ := List.forall_mem_cons.mp h
    obtain ⟨z, zs, hz, hzs, rfl⟩ := List.forall₂_cons_left_iff.mp hyz
    exact .cons (hxs _ _ hfirst hz) (ih hrest hzs)

end

/-- Items are equal when they are so one by one. -/
theorem equalItems_iff {xs ys : List Value} :
    equalItems xs ys = true ↔ List.Forall₂ (equals · · = true) xs ys := by
  induction xs generalizing ys with
  | nil => cases ys <;> simp [equalItems]
  | cons x xs ih =>
    cases ys with
    | nil => simp [equalItems]
    | cons y ys => rw [equalItems, Bool.and_eq_true, ih, List.forall₂_cons]

/-- Entries are equal when their keys and values are so one by one. -/
theorem equalEntries_iff {xs ys : List (Value × Value)} :
    equalEntries xs ys = true ↔
      List.Forall₂ (equals · · = true) (members (dict xs)) (members (dict ys)) := by
  induction xs generalizing ys with
  | nil => cases ys <;> simp [equalEntries, members]
  | cons x xs ih =>
    cases ys with
    | nil => simp [equalEntries, members]
    | cons y ys =>
      rw [equalEntries, Bool.and_eq_true, Bool.and_eq_true, ih, members_dict_cons,
        members_dict_cons, List.forall₂_cons, List.forall₂_cons, and_assoc]

/-- Fields are equal when their names are the same and their values equal, both in order. -/
theorem equalFields_iff {xs ys : List (String × Value)} :
    equalFields xs ys = true ↔ xs.map (·.1) = ys.map (·.1) ∧
      List.Forall₂ (equals · · = true) (xs.map (·.2)) (ys.map (·.2)) := by
  induction xs generalizing ys with
  | nil => cases ys <;> simp [equalFields]
  | cons x xs ih =>
    cases ys with
    | nil => simp [equalFields]
    | cons y ys =>
      simp only [equalFields, Bool.and_eq_true, beq_iff_eq, ih, List.map_cons, List.cons.injEq,
        List.forall₂_cons]
      tauto

/-- **Values are equal part by part**: frames are the same, floats are equal as numbers, and so are
    members as values. -/
theorem equals_iff {x y : Value} :
    equals x y = true ↔ x.frame = y.frame ∧
      List.Forall₂ (Float64.equals · · = true) x.floats y.floats ∧
      List.Forall₂ (equals · · = true) x.members y.members := by
  cases x with
  | float a =>
    cases y with
    | float b => simp [equals, frame, floats, members]
    | _ => simp [equals, frame]
  | tuple xs =>
    cases y with
    | tuple ys => simp [equals, equalItems_iff, frame, floats, members]
    | _ => simp [equals, frame]
  | list xs =>
    cases y with
    | list ys => simp [equals, equalItems_iff, frame, floats, members]
    | _ => simp [equals, frame]
  | dict es =>
    cases y with
    | dict fs => simp [equals, equalEntries_iff, frame, floats]
    | _ => simp [equals, frame]
  | record c fs =>
    cases y with
    | record d gs =>
      rw [equals, Bool.and_eq_true, beq_iff_eq, equalFields_iff, frame_record_inj, and_assoc]
      simp [floats, members]
    | _ => simp [equals, frame]
  | _ => cases y <;> simp [equals, frame, floats, members]

/-! ## Laws -/

theorem equals_symm {x y : Value} (h : equals x y = true) : equals y x = true := by
  induction x using byMembers generalizing y with
  | step x ih =>
    obtain ⟨hframe, hfloats, hmembers⟩ := equals_iff.mp h
    refine equals_iff.mpr ⟨hframe.symm, ?_, ?_⟩
    · exact (hfloats.imp fun a b hab => (Float64.equals_comm b a).trans hab).flip
    · exact (forall₂_imp_of_mem (fun w hw _ => ih w hw) hmembers).flip

/-- **`equals` is symmetric.** -/
theorem equals_comm (x y : Value) : equals x y = equals y x :=
  Bool.eq_iff_iff.mpr ⟨equals_symm, equals_symm⟩

/-- **`equals` is transitive.** -/
theorem equals_trans {x y z : Value} (hxy : equals x y = true) (hyz : equals y z = true) :
    equals x z = true := by
  induction x using byMembers generalizing y z with
  | step x ih =>
    obtain ⟨hframe, hfloats, hmembers⟩ := equals_iff.mp hxy
    obtain ⟨hframe', hfloats', hmembers'⟩ := equals_iff.mp hyz
    refine equals_iff.mpr ⟨hframe.trans hframe', ?_, ?_⟩
    · exact forall₂_trans_of_mem (fun _ _ _ _ => Float64.equals_trans) hfloats hfloats'
    · exact forall₂_trans_of_mem (fun w hw _ _ => ih w hw) hmembers hmembers'

/-! ## NaNs and zeros -/

/-- There is no NaN in a value, at any depth. -/
def NaNFree (v : Value) : Prop :=
  v.Everywhere fun w => ∀ bits ∈ w.floats, Float64.isNaN bits = false

/-- There is no zero of the floats in a value, at any depth. -/
def ZeroFree (v : Value) : Prop :=
  v.Everywhere fun w => ∀ bits ∈ w.floats, Float64.isZero bits = false

/-- **A value equals itself just when there is no NaN in it.** -/
theorem equals_self_iff {v : Value} : equals v v = true ↔ v.NaNFree := by
  induction v using byMembers with
  | step v ih =>
    have hmembers : (∀ w ∈ v.members, equals w w = true) ↔ ∀ w ∈ v.members, w.NaNFree :=
      forall₂_congr ih
    rw [equals_iff, List.forall₂_same, List.forall₂_same, hmembers, NaNFree, everywhere_iff]
    simp only [true_and, Float64.equals_self_iff, NaNFree]

/-- **Equal values without zeros are one.** -/
theorem eq_of_equals {x y : Value} (hzero : x.ZeroFree) (h : equals x y = true) : x = y := by
  induction x using byMembers generalizing y with
  | step x ih =>
    obtain ⟨hframe, hfloats, hmembers⟩ := equals_iff.mp h
    refine eq_of_parts hframe ?_ ?_
    · rw [← List.forall₂_eq_eq_eq]
      exact forall₂_imp_of_mem (fun _ hbits _ => Float64.eq_of_equals (hzero.self _ hbits)) hfloats
    · rw [← List.forall₂_eq_eq_eq]
      exact forall₂_imp_of_mem (fun w hw _ => ih w hw (hzero.member hw)) hmembers

/-- What holds of any three values under the two comparisons. -/
structure ComparisonLaws (a b c : Value) : Prop where
  sameAs_refl : a.sameAs a = true
  sameAs_symm : a.sameAs b = true → b.sameAs a = true
  sameAs_trans : a.sameAs b = true → b.sameAs c = true → a.sameAs c = true
  equals_symm : a.equals b = true → b.equals a = true
  equals_trans : a.equals b = true → b.equals c = true → a.equals c = true
  /-- A NaN, wherever it lies in a value, makes the value differ from itself. -/
  equals_self : a.equals a = true ↔ a.NaNFree
  equals_of_sameAs : a.NaNFree → a.sameAs b = true → a.equals b = true
  sameAs_of_equals : a.ZeroFree → a.equals b = true → a.sameAs b = true

/-- **The laws of the two comparisons**, and where one follows from the other. -/
theorem comparison_laws (a b c : Value) : ComparisonLaws a b c where
  sameAs_refl := (sameAs_iff_eq a a).mpr rfl
  sameAs_symm h := (sameAs_iff_eq b a).mpr ((sameAs_iff_eq a b).mp h).symm
  sameAs_trans h h' :=
    (sameAs_iff_eq a c).mpr (((sameAs_iff_eq a b).mp h).trans ((sameAs_iff_eq b c).mp h'))
  equals_symm := equals_symm
  equals_trans := equals_trans
  equals_self := equals_self_iff
  equals_of_sameAs hnan h := by
    rw [← (sameAs_iff_eq a b).mp h]
    exact equals_self_iff.mpr hnan
  sameAs_of_equals hzero h := (sameAs_iff_eq a b).mpr (eq_of_equals hzero h)

/-- A record around a dictionary of which the only key holds a float. -/
def keyed (bits : UInt64) : Value :=
  record "R" [("x", dict [(tuple [float bits], none)])]

/-- The zeros make equal values that are not the same, and a NaN one that differs from itself. -/
theorem zeros_and_nan_compared :
    ((keyed 0x8000000000000000).equals (keyed 0) = true ∧ ¬ (keyed 0).ZeroFree) ∧
      (keyed 0x7FF8000000000000).sameAs (keyed 0x7FF8000000000000) = true ∧
      ¬ (keyed 0x7FF8000000000000).NaNFree := by
  have hzeros : (keyed 0).equals (keyed 0x8000000000000000) = true := by decide
  have hdiffer : ¬ (keyed 0).sameAs (keyed 0x8000000000000000) = true := by decide
  have hnan : ¬ (keyed 0x7FF8000000000000).equals (keyed 0x7FF8000000000000) = true := by decide
  have laws := comparison_laws (keyed 0) (keyed 0x8000000000000000) (keyed 0)
  have laws' := comparison_laws (keyed 0x7FF8000000000000) (keyed 0) (keyed 0)
  refine ⟨⟨laws.equals_symm hzeros, fun hfree => hdiffer (laws.sameAs_of_equals hfree hzeros)⟩,
    laws'.sameAs_refl, fun hfree => hnan (laws'.equals_self.mpr hfree)⟩

end Value

end SealedStore
