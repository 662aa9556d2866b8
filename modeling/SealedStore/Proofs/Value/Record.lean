/-
  Records as calls make them.

  What the calls of a record come to is said of the calls alone.  A field holds what was last put
  into it if nothing has removed it since (`Holds`), and it was attached by the call that put
  something into it when it held nothing (`AttachedAt`).  After any calls a record is just that
  (`MadeBy`): a field has the value that it holds, and the names come in the order in which they
  were attached.

  Both notions follow the calls from the last one back: one more call changes them in a way that
  the call tells, and it changes the list of fields in the same way.
-/
import Mathlib.Data.List.Induction
import SealedStore.Value.Build

namespace SealedStore.Record

/-! ## Calls -/

/-- A call that may change a record. -/
inductive Call where
  | set (name : String) (value : Value)
  | remove (name : String)

namespace Call

/-- The field that a call is about. -/
def name : Call → String
  | set name _ => name
  | remove name => name

/-- The call puts a value into a field that may have one. -/
def Puts (call : Call) (name : String) (value : Value) : Prop :=
  call = set name value ∧ FieldName.isValid name = true

end Call

/-- Makes a call.  Gives its answer, and the record after it: the same if the call is refused. -/
def perform (r : Record) : Call → Except ValueError (Option Value) × Record
  | .set name value =>
    match r.set name value with
    | .ok (old, next) => (.ok old, next)
    | .error e => (.error e, r)
  | .remove name => (.ok (r.erase name).1, (r.erase name).2)

/-- A record of a class after calls, the first of them first. -/
def after (cls : String) (calls : List Call) : Record :=
  calls.foldl (fun r call => (r.perform call).2) (new cls)

/-- The names of the fields in the order in which they are listed. -/
def names (r : Record) : List String := r.fields.map (·.1)

/-! ## What calls come to -/

/-- After the calls a field holds a value: the last call about it has put the value there. -/
def Holds (calls : List Call) (name : String) (value : Value) : Prop :=
  ∃ before call later, calls = before ++ call :: later ∧ call.Puts name value ∧
    ∀ c ∈ later, c.name ≠ name

/-- The field was attached by the call at a place: it held nothing when the call put something into
    it, and no later call removed it. -/
def AttachedAt (calls : List Call) (name : String) (place : Nat) : Prop :=
  ∃ before call later, calls = before ++ call :: later ∧ before.length = place ∧
    (∃ value, call.Puts name value) ∧ (∀ value, ¬ Holds before name value) ∧
    Call.remove name ∉ later

/-- A record is what calls make of one of a class that has no fields, and answers one more call
    accordingly. -/
structure MadeBy (cls : String) (calls : List Call) (r : Record) : Prop where
  cls : r.cls = cls
  distinct : r.names.Nodup
  valid : ∀ name ∈ r.names, FieldName.isValid name = true
  /-- A field has the value that was put there last, if it was not removed since. -/
  value : ∀ name value, r.get? name = some value ↔ Holds calls name value
  /-- The fields that are listed are those that have a value. -/
  listed : ∀ name value, (name, value) ∈ r.fields ↔ r.get? name = some value
  attached : ∀ name, name ∈ r.names ↔ ∃ place, AttachedAt calls name place
  /-- What was attached earlier is listed earlier. -/
  order : r.names.Pairwise fun a b =>
    ∀ j k, AttachedAt calls a j → AttachedAt calls b k → j < k
  /-- A field that is there is replaced in its place and its value given, and a new one goes
      last. -/
  set : ∀ name value, FieldName.isValid name = true →
    (r.perform (.set name value)).1 = .ok (r.get? name) ∧
      (r.perform (.set name value)).2.names =
        if name ∈ r.names then r.names else r.names ++ [name]
  /-- A name that may not be one is refused, and the record stays as it is. -/
  refused : ∀ name value, ¬ FieldName.isValid name = true →
    (∃ fault, (r.perform (.set name value)).1 = .error (.invalidFieldName name fault)) ∧
      (r.perform (.set name value)).2 = r
  /-- A field is removed and its value given, and the others stay in their order. -/
  remove : ∀ name, (r.perform (.remove name)).1 = .ok (r.get? name) ∧
    (r.perform (.remove name)).2.names = r.names.erase name

section
variable {calls : List Call} {call : Call} {name : String} {value : Value} {place : Nat}

/-! ## One more call -/

/-- The calls are split at the last one or before it. -/
theorem concat_eq_iff {before later : List Call} {c : Call} :
    calls ++ [call] = before ++ c :: later ↔
      (later = [] ∧ before = calls ∧ c = call) ∨
        ∃ later', later = later' ++ [call] ∧ calls = before ++ c :: later' := by
  constructor
  · intro h
    rcases List.eq_nil_or_concat later with rfl | ⟨later', last, rfl⟩
    · obtain ⟨rfl, hc⟩ := List.append_inj' h rfl
      exact .inl ⟨rfl, rfl, (List.singleton_inj.mp hc).symm⟩
    · rw [List.concat_eq_append] at h ⊢
      have hsplit : calls ++ [call] = (before ++ c :: later') ++ [last] := by
        rw [h, List.append_assoc, List.cons_append]
      obtain ⟨rfl, hlast⟩ := List.append_inj' hsplit rfl
      obtain rfl := List.singleton_inj.mp hlast
      exact .inr ⟨later', rfl, rfl⟩
  · rintro (⟨rfl, rfl, rfl⟩ | ⟨later', rfl, rfl⟩)
    · rfl
    · rw [List.append_assoc, List.cons_append]

theorem not_holds_nil : ¬ Holds [] name value := by
  rintro ⟨before, call, later, hsplit, -⟩
  nomatch List.append_ne_nil_of_right_ne_nil before (List.cons_ne_nil call later) hsplit.symm

theorem not_attachedAt_nil : ¬ AttachedAt [] name place := by
  rintro ⟨before, call, later, hsplit, -⟩
  nomatch List.append_ne_nil_of_right_ne_nil before (List.cons_ne_nil call later) hsplit.symm

/-- **What a field holds** is what the last call puts there, or what it held if the call is about
    another field. -/
theorem holds_concat_iff :
    Holds (calls ++ [call]) name value ↔
      call.Puts name value ∨ (call.name ≠ name ∧ Holds calls name value) := by
  constructor
  · rintro ⟨before, c, later, hsplit, hputs, hlater⟩
    rcases concat_eq_iff.mp hsplit with ⟨rfl, rfl, rfl⟩ | ⟨later', rfl, rfl⟩
    · exact .inl hputs
    · obtain ⟨hlater', hcall⟩ := List.forall_mem_append.mp hlater
      exact .inr ⟨hcall call List.mem_cons_self, before, c, later', rfl, hputs, hlater'⟩
  · rintro (hputs | ⟨hname, before, c, later, rfl, hputs, hlater⟩)
    · exact ⟨calls, call, [], rfl, hputs, fun _ hc => (nomatch hc)⟩
    · refine ⟨before, c, later ++ [call], ?_, hputs, ?_⟩
      · rw [List.append_assoc, List.cons_append]
      · exact List.forall_mem_append.mpr ⟨hlater, List.forall_mem_singleton.mpr hname⟩

/-- **When a field was attached** is not changed by a call that does not remove it, and a call that
    puts something into a field that held nothing attaches it. -/
theorem attachedAt_concat_iff :
    AttachedAt (calls ++ [call]) name place ↔
      (call ≠ .remove name ∧ AttachedAt calls name place) ∨
        (place = calls.length ∧ (∃ value, call.Puts name value) ∧
          ∀ value, ¬ Holds calls name value) := by
  constructor
  · rintro ⟨before, c, later, hsplit, rfl, hputs, hfresh, hlater⟩
    rcases concat_eq_iff.mp hsplit with ⟨rfl, rfl, rfl⟩ | ⟨later', rfl, rfl⟩
    · exact .inr ⟨rfl, hputs, hfresh⟩
    · rw [List.mem_append, List.mem_singleton, not_or] at hlater
      exact .inl ⟨Ne.symm hlater.2, before, c, later', rfl, rfl, hputs, hfresh, hlater.1⟩
  · rintro (⟨hcall, before, c, later, rfl, rfl, hputs, hfresh, hlater⟩ | ⟨rfl, hputs, hfresh⟩)
    · refine ⟨before, c, later ++ [call], ?_, rfl, hputs, hfresh, ?_⟩
      · rw [List.append_assoc, List.cons_append]
      · rw [List.mem_append, List.mem_singleton, not_or]
        exact ⟨hlater, Ne.symm hcall⟩
    · exact ⟨calls, call, [], rfl, rfl, hputs, hfresh, List.not_mem_nil⟩

theorem AttachedAt.lt (h : AttachedAt calls name place) : place < calls.length := by
  obtain ⟨before, c, later, rfl, rfl, -⟩ := h
  rw [List.length_append, List.length_cons]
  omega

/-- A call about a field that does not remove it puts something there, or the name may not be
    one. -/
theorem puts_or_of_name_eq (hname : call.name = name) (hremove : call ≠ .remove name) :
    (∃ value, call.Puts name value) ∨ ¬ FieldName.isValid name = true := by
  cases call with
  | remove n => exact absurd (congrArg Call.remove hname) hremove
  | set n v =>
    obtain rfl : n = name := hname
    by_cases hvalid : FieldName.isValid n = true
    · exact .inl ⟨v, rfl, hvalid⟩
    · exact .inr hvalid

theorem Holds.valid (h : Holds calls name value) : FieldName.isValid name = true := by
  obtain ⟨_, _, _, _, ⟨-, hvalid⟩, -⟩ := h
  exact hvalid

/-- The fields that hold something are those that were attached. -/
theorem exists_attachedAt_iff :
    (∃ place, AttachedAt calls name place) ↔ ∃ value, Holds calls name value := by
  induction calls using List.reverseRecOn with
  | nil =>
    constructor
    · rintro ⟨place, h⟩
      exact absurd h not_attachedAt_nil
    · rintro ⟨value, h⟩
      exact absurd h not_holds_nil
  | append_singleton calls call ih =>
    constructor
    · rintro ⟨place, h⟩
      rcases attachedAt_concat_iff.mp h with ⟨hcall, hattached⟩ | ⟨-, ⟨value, hputs⟩, -⟩
      · obtain ⟨value, hholds⟩ := ih.mp ⟨place, hattached⟩
        by_cases hname : call.name = name
        · rcases puts_or_of_name_eq hname hcall with ⟨value', hputs⟩ | hinvalid
          · exact ⟨value', holds_concat_iff.mpr (.inl hputs)⟩
          · exact absurd hholds.valid hinvalid
        · exact ⟨value, holds_concat_iff.mpr (.inr ⟨hname, hholds⟩)⟩
      · exact ⟨value, holds_concat_iff.mpr (.inl hputs)⟩
    · rintro ⟨value, h⟩
      by_cases hheld : ∃ value', Holds calls name value'
      · -- the field was there, and what is about it now does not remove it
        have hcall : call ≠ .remove name := by
          rintro rfl
          rcases holds_concat_iff.mp h with ⟨hset, -⟩ | ⟨hname, -⟩
          · nomatch hset
          · exact hname rfl
        obtain ⟨place, hattached⟩ := ih.mpr hheld
        exact ⟨place, attachedAt_concat_iff.mpr (.inl ⟨hcall, hattached⟩)⟩
      · have hfresh : ∀ value', ¬ Holds calls name value' := fun value' h' => hheld ⟨value', h'⟩
        rcases holds_concat_iff.mp h with hputs | ⟨-, hholds⟩
        · exact ⟨calls.length, attachedAt_concat_iff.mpr (.inr ⟨rfl, ⟨value, hputs⟩, hfresh⟩)⟩
        · exact absurd hholds (hfresh value)

end

/-! ## What a call makes of a record -/

section
variable {r : Record} {name : String} {value : Value}

theorem set_of_valid (h : FieldName.isValid name = true) (r : Record) (value : Value) :
    r.set name value = .ok (r.get? name, { r with fields := Assoc.put name value r.fields }) := by
  rw [Record.set, Option.isNone_iff_eq_none.mp h]

theorem perform_set (h : FieldName.isValid name = true) (r : Record) (value : Value) :
    r.perform (.set name value) =
      (.ok (r.get? name), { r with fields := Assoc.put name value r.fields }) := by
  rw [perform, set_of_valid h]

/-- A name that is not valid is refused, and the record is as it was. -/
theorem perform_refused (h : ¬ FieldName.isValid name = true) (r : Record) (value : Value) :
    ∃ fault, r.perform (.set name value) = (.error (.invalidFieldName name fault), r) := by
  obtain ⟨fault, hfault⟩ : ∃ fault, FieldName.fault? name.toList = some fault :=
    Option.ne_none_iff_exists'.mp fun hnone => h (Option.isNone_iff_eq_none.mpr hnone)
  have hset : r.set name value = .error (.invalidFieldName name fault) := by
    rw [Record.set, hfault]
  exact ⟨fault, by rw [perform, hset]⟩

/-- What the names are after a call. -/
theorem names_perform (r : Record) (call : Call) :
    (r.perform call).2.names = r.names ∨
      (∃ value, call.Puts call.name value ∧ call.name ∉ r.names ∧
        (r.perform call).2.names = r.names ++ [call.name]) ∨
      (call = .remove call.name ∧ (r.perform call).2.names = r.names.erase call.name) := by
  cases call with
  | set name value =>
    by_cases hvalid : FieldName.isValid name = true
    · have hnames := Assoc.keys_put name value r.fields
      rw [perform_set hvalid]
      by_cases hmem : name ∈ r.names
      · exact .inl (hnames.trans (if_pos hmem))
      · exact .inr (.inl ⟨value, ⟨rfl, hvalid⟩, hmem, hnames.trans (if_neg hmem)⟩)
    · obtain ⟨fault, hrefused⟩ := perform_refused hvalid r value
      rw [hrefused]
      exact .inl rfl
  | remove name => exact .inr (.inr ⟨rfl, Assoc.keys_erase name r.fields⟩)

/-- No call gives a record one name twice. -/
theorem nodup_perform (h : r.names.Nodup) (call : Call) : (r.perform call).2.names.Nodup := by
  rcases names_perform r call with heq | ⟨_, -, hfresh, heq⟩ | ⟨-, heq⟩
  · rwa [heq]
  · rw [heq]
    refine List.nodup_append.mpr ⟨h, List.pairwise_singleton _ _, ?_⟩
    rintro a ha b hb rfl
    exact hfresh (List.mem_singleton.mp hb ▸ ha)
  · rw [heq]
    exact h.erase _

/-- No call gives a record a name that is not valid. -/
theorem valid_perform (h : ∀ name ∈ r.names, FieldName.isValid name = true) (call : Call) :
    ∀ name ∈ (r.perform call).2.names, FieldName.isValid name = true := by
  rcases names_perform r call with heq | ⟨_, ⟨-, hvalid⟩, -, heq⟩ | ⟨-, heq⟩
  · rwa [heq]
  · rw [heq]
    exact List.forall_mem_append.mpr ⟨h, List.forall_mem_singleton.mpr hvalid⟩
  · rw [heq]
    exact fun name hname => h name (List.mem_of_mem_erase hname)

/-- **What a field has** after a call is what the call puts there, or what it had if the call is
    about another field. -/
theorem get?_perform_iff (hdistinct : r.names.Nodup)
    (hvalid : ∀ name ∈ r.names, FieldName.isValid name = true) (call : Call) :
    (r.perform call).2.get? name = some value ↔
      call.Puts name value ∨ (call.name ≠ name ∧ r.get? name = some value) := by
  cases call with
  | remove n =>
    show Assoc.find name (Assoc.erase n r.fields) = some value ↔ _
    have hputs : ¬ (Call.remove n).Puts name value := fun h => (nomatch h.1)
    rw [or_iff_right hputs]
    by_cases hname : n = name
    · subst hname
      rw [Assoc.find_erase_self hdistinct]
      exact ⟨fun h => (nomatch h), fun h => absurd rfl h.1⟩
    · rw [Assoc.find_erase_of_ne (Ne.symm hname)]
      exact (and_iff_right hname).symm
  | set n v =>
    by_cases hn : FieldName.isValid n = true
    · rw [perform_set hn]
      show Assoc.find name (Assoc.put n v r.fields) = some value ↔ _
      by_cases hname : n = name
      · subst hname
        rw [Assoc.find_put_self]
        constructor
        · intro h
          obtain rfl := Option.some.inj h
          exact .inl ⟨rfl, hn⟩
        · rintro (⟨hset, -⟩ | ⟨hne, -⟩)
          · exact congrArg some (Call.set.inj hset).2
          · exact absurd rfl hne
      · rw [Assoc.find_put_of_ne (Ne.symm hname)]
        have hputs : ¬ (Call.set n v).Puts name value := fun h => hname (Call.set.inj h.1).1
        rw [or_iff_right hputs]
        exact (and_iff_right hname).symm
    · obtain ⟨fault, hrefused⟩ := perform_refused hn r v
      rw [hrefused]
      constructor
      · intro h
        have hmem : name ∈ r.names := Assoc.isSome_find_iff.mp (Option.isSome_of_eq_some h)
        refine .inr ⟨?_, h⟩
        rintro rfl
        exact hn (hvalid _ hmem)
      · rintro (⟨hset, hname⟩ | ⟨-, h⟩)
        · obtain ⟨rfl, -⟩ := Call.set.inj hset
          exact absurd hname hn
        · exact h

end

/-! ## Any calls -/

section
variable (cls : String) (calls : List Call)

theorem after_concat (call : Call) :
    after cls (calls ++ [call]) = ((after cls calls).perform call).2 := by
  rw [after, List.foldl_append]
  rfl

theorem cls_perform (r : Record) (call : Call) : (r.perform call).2.cls = r.cls := by
  cases call with
  | remove name => rfl
  | set name value =>
    by_cases hvalid : FieldName.isValid name = true
    · rw [perform_set hvalid]
    · obtain ⟨fault, hrefused⟩ := perform_refused hvalid r value
      rw [hrefused]

theorem cls_after : (after cls calls).cls = cls := by
  induction calls using List.reverseRecOn with
  | nil => rfl
  | append_singleton calls call ih => rw [after_concat, cls_perform, ih]

/-- After any calls the names are distinct, -/
theorem nodup_after : (after cls calls).names.Nodup := by
  induction calls using List.reverseRecOn with
  | nil => exact List.nodup_nil
  | append_singleton calls call ih =>
    rw [after_concat]
    exact nodup_perform ih call

/-- they are valid, -/
theorem valid_after : ∀ name ∈ (after cls calls).names, FieldName.isValid name = true := by
  induction calls using List.reverseRecOn with
  | nil => exact fun _ h => (nomatch h)
  | append_singleton calls call ih =>
    rw [after_concat]
    exact valid_perform ih call

/-- and each has the value that the calls left it. -/
theorem get?_after_iff {name : String} {value : Value} :
    (after cls calls).get? name = some value ↔ Holds calls name value := by
  induction calls using List.reverseRecOn generalizing value with
  | nil => exact ⟨fun h => (nomatch h), fun h => absurd h not_holds_nil⟩
  | append_singleton calls call ih =>
    rw [after_concat, get?_perform_iff (nodup_after cls calls) (valid_after cls calls),
      holds_concat_iff, ih]

theorem mem_names_iff {r : Record} {name : String} :
    name ∈ r.names ↔ ∃ value, r.get? name = some value := by
  rw [← Option.isSome_iff_exists]
  exact Assoc.isSome_find_iff.symm

theorem mem_names_after_iff {name : String} :
    name ∈ (after cls calls).names ↔ ∃ value, Holds calls name value := by
  rw [mem_names_iff]
  exact exists_congr fun value => get?_after_iff cls calls

/-- **The fields are listed in the order in which they were attached.** -/
theorem pairwise_after : (after cls calls).names.Pairwise fun a b =>
    ∀ j k, AttachedAt calls a j → AttachedAt calls b k → j < k := by
  induction calls using List.reverseRecOn with
  | nil => exact .nil
  | append_singleton calls call ih =>
    -- what was listed before and still is was attached when it was
    have hold : ∀ name ∈ (after cls calls).names, ∀ place,
        AttachedAt (calls ++ [call]) name place → AttachedAt calls name place := by
      intro name hname place h
      rcases attachedAt_concat_iff.mp h with ⟨-, hattached⟩ | ⟨-, -, hfresh⟩
      · exact hattached
      · obtain ⟨value, hholds⟩ := (mem_names_after_iff cls calls).mp hname
        exact absurd hholds (hfresh value)
    have hkept : (after cls calls).names.Pairwise fun a b =>
        ∀ j k, AttachedAt (calls ++ [call]) a j → AttachedAt (calls ++ [call]) b k → j < k :=
      ih.imp_of_mem fun ha hb hlt j k hj hk => hlt j k (hold _ ha j hj) (hold _ hb k hk)
    rw [after_concat]
    rcases names_perform (after cls calls) call with heq | ⟨_, -, hfresh, heq⟩ | ⟨-, heq⟩
    · rwa [heq]
    · rw [heq, List.pairwise_append]
      refine ⟨hkept, List.pairwise_singleton _ _, ?_⟩
      intro a ha b hb j k hj hk
      obtain rfl := List.mem_singleton.mp hb
      have hlt : j < calls.length := (hold a ha j hj).lt
      rcases attachedAt_concat_iff.mp hk with ⟨-, hattached⟩ | ⟨rfl, -⟩
      · have hmem := (mem_names_after_iff cls calls).mpr (exists_attachedAt_iff.mp ⟨k, hattached⟩)
        exact absurd hmem hfresh
      · exact hlt
    · rw [heq]
      exact hkept.sublist List.erase_sublist

/-- **A record is what its calls make of it.** -/
theorem madeBy_after : MadeBy cls calls (after cls calls) where
  cls := cls_after cls calls
  distinct := nodup_after cls calls
  valid := valid_after cls calls
  value _ _ := get?_after_iff cls calls
  listed _ _ := Assoc.mem_iff_find (nodup_after cls calls)
  attached name := by
    rw [mem_names_after_iff, exists_attachedAt_iff]
  order := pairwise_after cls calls
  set name value hvalid := by
    rw [perform_set hvalid]
    exact ⟨rfl, Assoc.keys_put name value (after cls calls).fields⟩
  refused name value hinvalid := by
    obtain ⟨fault, hrefused⟩ := perform_refused hinvalid (after cls calls) value
    rw [hrefused]
    exact ⟨⟨fault, rfl⟩, rfl⟩
  remove name := ⟨rfl, Assoc.keys_erase name (after cls calls).fields⟩

/-- A field that is put in place of another keeps its place, and one that is removed and put back
    goes last. -/
example : (after "S" [.set "a" .none, .set "b" .none, .set "c" .none, .set "b" (.int 1),
    .remove "a", .set "9" .none, .set "a" (.int 2)]).names = ["b", "c", "a"] := by decide

end

end SealedStore.Record
