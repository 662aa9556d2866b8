/-
  Every pickle of plain data gives that data.

  What opcodes do to a machine is said for each task of theirs: they put values on the stack
  (`Pushes`, `PushesAll`) or fill the container on top (`Fills`).  The rest of the stack stays as it
  is, and the machine still agrees with what is known.  An induction over the emission of the
  opcodes joins these together (`Emits.done`), and the bytes of a pickle make the machine go
  through the opcodes.
-/
import SealedStore.Proofs.Pickle.Known
import SealedStore.Proofs.Pickle.Run

namespace SealedStore.Pickle

open Machine (Advances Agrees Stacked Takes)

variable {known : Known} {ops ops' keep : List Opcode} {op : Opcode} {a b copied : Nat}
  {added added' inner kept : List Value} {u v w : Value} {us vs : List Value}

/-! ## What opcodes are there for -/

/-- The opcodes put a value on the stack. -/
def Pushes (known : Known) (ops : List Opcode) (copied : Nat) (added : List Value) (v : Value) :
    Prop :=
  ∀ m : Machine, m.Agrees known → m.shared + copied ≤ maxShared → ∃ m' ids, Runs ops m m' ∧
    m'.stack = m.stack.push (.node (.exact v) ids) ∧
      m.Advances m.stack.size copied (known.add added) m'

/-- The opcodes put values on the stack, the first one lowest. -/
def PushesAll (known : Known) (ops : List Opcode) (copied : Nat) (added : List Value)
    (vs : List Value) : Prop :=
  ∀ m : Machine, m.Agrees known → m.shared + copied ≤ maxShared → ∃ m', Runs ops m m' ∧
    Stacked m.stack vs m'.stack ∧ m.Advances m.stack.size copied (known.add added) m'

/-- After the opcodes, values can be taken off in a certain way. -/
def Gathers (Taken : Machine → List Node → Machine → Prop) (known : Known) (ops : List Opcode)
    (copied : Nat) (added : List Value) (vs : List Value) : Prop :=
  ∀ m : Machine, m.Agrees known → m.shared + copied ≤ maxShared → ∃ m₁ m₂, Runs ops m m₁ ∧
    Taken m₁ (vs.map .exact) m₂ ∧ m₂.stack = m.stack ∧
      m.Advances m.stack.size copied (known.add added) m₂

/-- The opcodes turn one container into another if it lies on top and is not completed. -/
def Fills (known : Known) (ops : List Opcode) (copied : Nat) (added : List Value) (v w : Value) :
    Prop :=
  ∀ (m : Machine) (below : Array Item) (ids : List Nat),
    m.stack = below.push (.node (.exact v) ids) → (∀ id ∈ ids, known[id]? = some none) →
      m.Agrees known → m.shared + copied ≤ maxShared → ∃ m', Runs ops m m' ∧
        m'.stack = below.push (.node (.exact w) ids) ∧
          m.Advances (below.size + 1) copied (known.add added) m'

/-! ## Values -/

theorem advances_push {m : Machine} (h : m.Agrees known) (n : Node) :
    m.Advances m.stack.size 0 known (m.push n) :=
  Machine.advances_of_memo rfl rfl (h.of_push rfl rfl)

theorem exec_push (h : v.members = []) (m : Machine) :
    m.exec (.push v) = .ok (m.push (.exact v)) := by
  rw [← Node.leaf_eq_exact h]
  rfl

/-- A value without members is a single opcode. -/
theorem pushes_leaf (h : v.members = []) : Pushes known [.push v] 0 [] v := by
  intro m hagrees _
  rw [Known.add_nil]
  exact ⟨m.push (.exact v), [], .single nofun (exec_push h m), rfl, advances_push hagrees _⟩

/-- **A completed value is copied** from the memo. -/
theorem pushes_get {id : Nat} (h : known[id]? = some (some v)) :
    Pushes known [.get id] v.nodes.length [] v := by
  intro m hagrees hroom
  have hlookup := (hagrees.stands id v h).lookup
  have hcharge : m.charge v.nodes.length = .ok { m with shared := m.shared + v.nodes.length } :=
    Machine.charge_eq_ok_iff.mpr ⟨hroom, rfl⟩
  refine ⟨Machine.push { m with shared := m.shared + v.nodes.length } (.exact v), [],
    .single nofun ?_, rfl, ?_⟩
  · exact except_bind_eq_ok.mpr ⟨_, hlookup, except_bind_eq_ok.mpr ⟨_, hcharge, rfl⟩⟩
  · rw [Known.add_nil]
    exact Machine.advances_of_memo rfl rfl (hagrees.of_push rfl rfl)

/-- The opcode that remembers, if there is one, uses the next id. -/
theorem Keeps.exec {id : Nat} (h : Keeps id v keep kept) :
    (keep = [] ∧ kept = []) ∨ ∃ op, keep = [op] ∧ kept = [v] ∧ op ≠ .stop ∧
      ∀ m : Machine, m.memo.size = id → m.exec op = m.remember id := by
  cases h with
  | not => exact .inl ⟨rfl, rfl⟩
  | memoize hid =>
    refine .inr ⟨.memoize, rfl, rfl, nofun, fun m hsize => ?_⟩
    subst hsize
    exact if_pos hid
  | put => exact .inr ⟨.put id, rfl, rfl, nofun, fun m _ => rfl⟩

/-- A value that nothing can be added to is completed when it is remembered. -/
theorem Pushes.remembered (h : Pushes known ops copied inner v)
    (hfixed : Content.ofValue v = .fixed v)
    (hkeep : Keeps (known.length + inner.length) v keep kept) :
    Pushes known (ops ++ keep) copied (inner ++ kept) v := by
  intro m hagrees hroom
  obtain ⟨m', ids, hruns, hstack, hadv⟩ := h m hagrees hroom
  rcases hkeep.exec with ⟨rfl, rfl⟩ | ⟨op, rfl, rfl, hop, hexec⟩
  · rw [List.append_nil, List.append_nil]
    exact ⟨m', ids, hruns, hstack, hadv⟩
  · rw [← Known.length_add] at hexec
    have hremember := Machine.remember_of_fixed hstack hfixed (known.add inner).length
    refine ⟨_, ids, hruns.append (.single hop ((hexec m' hadv.agrees.size).trans hremember)),
      hstack, ?_⟩
    rw [← Known.add_add]
    exact hadv.trans (hadv.agrees.advances_fixed v)

/-! ## Several values -/

theorem pushesAll_nil : PushesAll known [] 0 [] [] := by
  intro m hagrees _
  rw [Known.add_nil]
  exact ⟨m, .nil m, .nil, Machine.advances_of_memo rfl rfl hagrees⟩

/-- One value and then others are put on the stack, each by its own opcodes. -/
theorem Pushes.cons (h : Pushes known ops a added v)
    (h' : PushesAll (known.add added) ops' b added' vs) :
    PushesAll known (ops ++ ops') (a + b) (added ++ added') (v :: vs) := by
  intro m hagrees hroom
  obtain ⟨m₁, ids, hruns, hstack, hadv⟩ := h m hagrees (by omega)
  have hshared := hadv.shared
  obtain ⟨m₂, hruns', hstacked, hadv'⟩ := h' m₁ hadv.agrees (by omega)
  have hheight : m.stack.size ≤ m₁.stack.size := by
    rw [hstack, Array.size_push]
    exact Nat.le_succ _
  rw [hstack] at hstacked
  rw [← Known.add_add]
  exact ⟨m₂, hruns.append hruns', hstacked.cons, hadv.trans (hadv'.mono hheight)⟩

/-- Values are taken off one after the other. -/
theorem PushesAll.gathers (h : PushesAll known ops copied added vs) :
    Gathers Takes known ops copied added vs := by
  intro m hagrees hroom
  obtain ⟨m₁, hruns, hstacked, hadv⟩ := h m hagrees hroom
  obtain ⟨m₂, htakes, hstack, hadv'⟩ := hstacked.takes hadv.agrees
  exact ⟨m₁, m₂, hruns, htakes, hstack, hadv.trans hadv'⟩

/-- Values on a mark are taken off with it. -/
theorem PushesAll.gathers_marked (h : PushesAll known ops copied added vs) :
    Gathers (fun m ns m' => m.popToMark = .ok (ns, m')) known (.mark :: ops) copied added vs := by
  intro m hagrees hroom
  have hmarked : m.pushMark.Agrees known := hagrees.of_push rfl rfl
  obtain ⟨m₁, hruns, hstacked, hadv⟩ := h m.pushMark hmarked hroom
  obtain ⟨m₂, htakes, hstack, hadv'⟩ := hstacked.takes hadv.agrees
  have hdropped : Agrees (known.add added) { m₂ with stack := m.stack } := hadv'.agrees.drop hstack
  have hheight : m.stack.size ≤ m.pushMark.stack.size := by
    rw [Machine.pushMark, Array.size_push]
    exact Nat.le_succ _
  refine ⟨m₁, { m₂ with stack := m.stack }, .cons nofun rfl hruns, ?_, rfl, ?_⟩
  · exact Machine.popToMark_eq_ok_iff.mpr ⟨m₂, m.stack, htakes, hstack, rfl⟩
  · have hafter := (hadv.trans hadv').mono hheight
    exact ⟨hafter.shared, hafter.keeps, hdropped⟩

/-! ## Containers -/

variable {Taken : Machine → List Node → Machine → Prop}

/-- Values are taken off and made into another. -/
theorem Gathers.pushes (h : Gathers Taken known ops copied added vs) (hop : op ≠ .stop)
    (hexec : ∀ m m' : Machine, Taken m (vs.map .exact) m' → m.exec op = .ok (m'.push (.exact v))) :
    Pushes known (ops ++ [op]) copied added v := by
  intro m hagrees hroom
  obtain ⟨m₁, m₂, hruns, htaken, hstack, hadv⟩ := h m hagrees hroom
  refine ⟨m₂.push (.exact v), [], hruns.append (.single hop (hexec m₁ m₂ htaken)), ?_, ?_⟩
  · rw [Machine.push, hstack]
  · rw [← hstack] at hadv ⊢
    exact hadv.trans (advances_push hadv.agrees _)

/-- Values are taken off and added to the container below them. -/
theorem Gathers.fills (h : Gathers Taken known ops copied added vs) (hop : op ≠ .stop)
    (change : Node → Except Cause Node) (hchange : change (.exact v) = .ok (.exact w))
    (hexec : ∀ m m' m'' : Machine, Taken m (vs.map .exact) m' → m'.replaceTop change = .ok m'' →
      m.exec op = .ok m'') :
    Fills known (ops ++ [op]) copied added v w := by
  intro m below ids htop hopen hagrees hroom
  obtain ⟨m₁, m₂, hruns, htaken, hstack, hadv⟩ := h m hagrees hroom
  rw [htop] at hstack
  -- the container is on top again, under the ids it had
  have hreplace : m₂.replaceTop change = .ok _ :=
    Machine.replaceTop_eq_ok_iff.mpr ⟨below, _, _, ids, hstack, hchange, rfl⟩
  have hreplaced := hadv.agrees.replace hstack
    (fun id hid => Known.getElem?_add (hopen id hid) added) (.exact w)
  rw [htop, Array.size_push] at hadv
  exact ⟨_, hruns.append (.single hop (hexec m₁ m₂ _ htaken hreplace)), rfl, hadv.shared,
    hadv.keeps, hreplaced⟩

theorem fills_nil : Fills known [] 0 [] v v := by
  intro m below ids htop _ hagrees _
  rw [Known.add_nil]
  exact ⟨m, .nil m, htop, Machine.advances_of_memo rfl rfl hagrees⟩

/-- A container is filled by some opcodes and then by others. -/
theorem Fills.trans (h : Fills known ops a added u v)
    (h' : Fills (known.add added) ops' b added' v w) :
    Fills known (ops ++ ops') (a + b) (added ++ added') u w := by
  intro m below ids htop hopen hagrees hroom
  obtain ⟨m₁, hruns, hstack, hadv⟩ := h m below ids htop hopen hagrees (by omega)
  have hshared := hadv.shared
  obtain ⟨m₂, hruns', hstack', hadv'⟩ := h' m₁ below ids hstack
    (fun id hid => Known.getElem?_add (hopen id hid) added) hadv.agrees (by omega)
  rw [← Known.add_add]
  exact ⟨m₂, hruns.append hruns', hstack', hadv.trans hadv'⟩

/-- **A container is opened, filled and thereby completed.**  If it is remembered it is so while
    it is open, by the place where it is then filled. -/
theorem Fills.pushes (hempty : u.members = []) (hopen : ∀ x, Content.ofValue u ≠ .fixed x)
    (hkeep : Keeps known.length v keep kept)
    (h : Fills (known ++ kept.map fun _ => none) ops copied inner u v) :
    Pushes known (.push u :: keep ++ ops) copied (kept ++ inner) v := by
  intro m hagrees hroom
  have hpush := exec_push hempty m
  have hadv₁ := advances_push hagrees (.exact u)
  rcases hkeep.exec with ⟨rfl, rfl⟩ | ⟨op, rfl, rfl, hop, hexec⟩
  · rw [List.map_nil, List.append_nil] at h
    obtain ⟨m₂, hruns, hstack, hadv₂⟩ := h (m.push (.exact u)) m.stack [] rfl
      (fun _ hid => (nomatch hid)) hadv₁.agrees hroom
    refine ⟨m₂, [], .cons nofun hpush hruns, hstack, ?_⟩
    rw [← Nat.zero_add copied]
    exact hadv₁.trans (hadv₂.mono (Nat.le_succ _))
  · -- the container gets the next id, which is open until all is added
    have hremember := Machine.remember_of_open (m := m.push (.exact u)) rfl hopen known.length
    have hadv₂ : Advances _ m.stack.size 0 (known ++ [none]) _ :=
      hadv₁.agrees.advances_open (show _ = m.stack.push _ from rfl)
    obtain ⟨m₃, hruns, hstack, hadv₃⟩ := h _ m.stack [known.length] rfl
      (List.forall_mem_singleton.mpr List.getElem?_concat_length) hadv₂.agrees hroom
    -- what filled the container lay above it, so the id still stands for its place
    have hlive := hadv₃.keeps known.length m.stack.size (Nat.lt_succ_self _)
      ((Memo.getElem?_insert _ _ _ _).trans (if_pos rfl))
    have hstands : m₃.Stands known.length v := by
      refine .inr ⟨m.stack.size, [known.length], hlive, List.mem_singleton.mpr rfl, ?_⟩
      rw [hstack, Array.getElem?_push_size]
    have hcompleted : m₃.Agrees (known.add ([v] ++ inner)) := by
      refine Agrees.complete ?_ hstands
      have hagrees₃ := hadv₃.agrees
      rwa [Known.add, List.append_assoc] at hagrees₃
    have hall := hadv₁.trans (hadv₂.trans (hadv₃.mono (Nat.le_succ _)))
    rw [Nat.zero_add, Nat.zero_add] at hall
    refine ⟨m₃, [known.length], .cons nofun hpush (.cons hop ?_ hruns), hstack, hall.shared,
      hall.keeps, hcompleted⟩
    exact (hexec _ hadv₁.agrees.size).trans hremember

/-! ## Tasks -/

/-- What the opcodes do that are emitted for a task. -/
def Task.Done (known : Known) (ops : List Opcode) (copied : Nat) (added : List Value) :
    Task → Prop
  | .value v => v.level ≤ maxDepth → Pushes known ops copied added v
  | .values vs => (∀ v ∈ vs, v.level ≤ maxDepth) → PushesAll known ops copied added vs
  | .items vs => ∀ us, (Value.list (us ++ vs)).level ≤ maxDepth →
      Fills known ops copied added (.list us) (.list (us ++ vs))
  | .entries fs => ∀ es, (Value.dict (es ++ fs)).KeysHashable → (Value.dict (es ++ fs)).KeysApart →
      (Value.dict (es ++ fs)).level ≤ maxDepth →
      Fills known ops copied added (.dict es) (.dict (es ++ fs))

theorem level_le_of_mem_members (h : v.level ≤ maxDepth) (hw : w ∈ v.members) :
    w.level ≤ maxDepth :=
  Nat.le_of_lt (Nat.lt_of_lt_of_le (Value.level_le_iff.mp (Nat.le_refl _) w hw) h)

namespace Task.Done

theorem values_nil : Task.Done known [] 0 [] (.values []) := fun _ => pushesAll_nil

theorem values_cons (h : Task.Done known ops a added (.value v))
    (h' : Task.Done (known.add added) ops' b added' (.values vs)) :
    Task.Done known (ops ++ ops') (a + b) (added ++ added') (.values (v :: vs)) := by
  intro hlevels
  obtain ⟨hlevel, hlevels⟩ := List.forall_mem_cons.mp hlevels
  exact (h hlevel).cons (h' hlevels)

/-- A value alone. -/
theorem values_single (h : Task.Done known ops copied added (.value v)) :
    Task.Done known ops copied added (.values [v]) := by
  have hcons := h.values_cons values_nil
  rwa [List.append_nil, List.append_nil, Nat.add_zero] at hcons

/-! ### Tuples -/

/-- A tuple is made of as many values as the opcode says, and remembered when it is complete. -/
theorem tupleOf (h : Task.Done known ops copied inner (.values vs))
    (hkeep : Keeps (known.length + inner.length) (.tuple vs) keep kept) :
    Task.Done known (ops ++ .tupleOf vs.length :: keep) copied (inner ++ kept)
      (.value (.tuple vs)) := by
  intro hlevel
  have hpushes : Pushes known (ops ++ [.tupleOf vs.length]) copied inner (.tuple vs) := by
    refine (h fun w hw => level_le_of_mem_members hlevel hw).gathers.pushes nofun
      fun m m' htakes => ?_
    have hpop := Machine.popOnto_eq_ok_iff.mpr
      ⟨_, List.length_map _, (List.append_nil _).symm, htakes⟩
    exact except_bind_eq_ok.mpr
      ⟨_, hpop, except_bind_eq_ok.mpr ⟨_, Node.sequence_exact rfl hlevel, rfl⟩⟩
  rw [List.append_cons]
  exact hpushes.remembered rfl hkeep

/-- A tuple of any number of values is made of all above a mark, and remembered when it is
    complete. -/
theorem tuple (h : Task.Done known ops copied inner (.values vs))
    (hkeep : Keeps (known.length + inner.length) (.tuple vs) keep kept) :
    Task.Done known (.mark :: ops ++ .tuple :: keep) copied (inner ++ kept)
      (.value (.tuple vs)) := by
  intro hlevel
  have hpushes : Pushes known (.mark :: ops ++ [.tuple]) copied inner (.tuple vs) := by
    refine (h fun w hw => level_le_of_mem_members hlevel hw).gathers_marked.pushes nofun
      fun m m' htaken => ?_
    exact except_bind_eq_ok.mpr
      ⟨_, htaken, except_bind_eq_ok.mpr ⟨_, Node.sequence_exact rfl hlevel, rfl⟩⟩
  rw [List.append_cons]
  exact hpushes.remembered rfl hkeep

/-! ### Batches -/

theorem items_nil : Task.Done known [] 0 [] (.items []) := by
  intro us _
  rw [List.append_nil]
  exact fills_nil

theorem items_append (h : Task.Done known ops a added (.items us))
    (h' : Task.Done (known.add added) ops' b added' (.items vs)) :
    Task.Done known (ops ++ ops') (a + b) (added ++ added') (.items (us ++ vs)) := by
  intro ts hlevel
  rw [← List.append_assoc] at hlevel ⊢
  refine (h ts (Nat.le_trans (Value.level_mono ?_) hlevel)).trans (h' (ts ++ us) hlevel)
  exact fun w hw => List.mem_append_left vs hw

/-- The members that a list gets lie no deeper than is allowed. -/
theorem level_le_of_items (hlevel : (Value.list (us ++ vs)).level ≤ maxDepth) :
    ∀ w ∈ vs, w.level ≤ maxDepth :=
  fun _ hw => level_le_of_mem_members hlevel (List.mem_append_right us hw)

/-- One item is added to a list. -/
theorem append (h : Task.Done known ops copied added (.value v)) :
    Task.Done known (ops ++ [.append]) copied added (.items [v]) := by
  intro us hlevel
  refine (h.values_single (level_le_of_items hlevel)).gathers.fills nofun (·.append [.exact v])
    (Node.append_exact hlevel) fun m m' m'' htakes hreplace => ?_
  obtain ⟨m₁, hpop, hnil⟩ := Machine.takes_snoc_iff.mp (show Takes m ([] ++ [_]) m' from htakes)
  obtain rfl := Machine.takes_nil_iff.mp hnil
  exact except_bind_eq_ok.mpr ⟨_, hpop, hreplace⟩

theorem appends (h : Task.Done known ops copied added (.values vs)) :
    Task.Done known (.mark :: ops ++ [.appends]) copied added (.items vs) := by
  intro us hlevel
  exact (h (level_le_of_items hlevel)).gathers_marked.fills nofun (·.append (vs.map .exact))
    (Node.append_exact hlevel) fun _ _ _ htaken hreplace =>
      except_bind_eq_ok.mpr ⟨_, htaken, hreplace⟩

variable {es fs : List (Value × Value)}

theorem entries_nil : Task.Done known [] 0 [] (.entries []) := by
  intro es _ _ _
  rw [List.append_nil]
  exact fills_nil

/-- Entries are added in two parts. -/
theorem entries_append (h : Task.Done known ops a added (.entries es))
    (h' : Task.Done (known.add added) ops' b added' (.entries fs)) :
    Task.Done known (ops ++ ops') (a + b) (added ++ added') (.entries (es ++ fs)) := by
  intro ds hkeys hapart hlevel
  rw [← List.append_assoc] at hkeys hapart hlevel ⊢
  refine (h ds ?_ ?_ ?_).trans (h' (ds ++ es) hkeys hapart hlevel)
  · exact fun e he => hkeys e (List.mem_append_left fs he)
  · exact (List.pairwise_append.mp hapart).1
  · refine Nat.le_trans (Value.level_mono fun w hw => ?_) hlevel
    rw [Value.members_dict_append]
    exact List.mem_append_left _ hw

/-- The keys and values that a dictionary gets lie no deeper than is allowed. -/
theorem level_le_of_entries (hlevel : (Value.dict (es ++ fs)).level ≤ maxDepth) :
    ∀ w ∈ (Value.dict fs).members, w.level ≤ maxDepth := by
  intro w hw
  refine level_le_of_mem_members hlevel ?_
  rw [Value.members_dict_append]
  exact List.mem_append_right _ hw

/-- One entry is added to a dictionary, as its key and its value. -/
theorem setItem {k : Value} (h : Task.Done known ops copied added (.values [k, v])) :
    Task.Done known (ops ++ [.setItem]) copied added (.entries [(k, v)]) := by
  intro es hkeys hapart hlevel
  have hkey : (Value.dict [(k, v)]).KeysHashable := fun e he =>
    hkeys e (List.mem_append_right es he)
  refine (h (level_le_of_entries hlevel)).gathers.fills nofun (·.setItems [.exact k, .exact v])
    (Node.setItems_exact hkey hapart hlevel) fun m m' m'' htakes hreplace => ?_
  obtain ⟨m₁, hvalue, hrest⟩ := Machine.takes_snoc_iff.mp (show Takes m ([_] ++ [_]) m' from htakes)
  obtain ⟨m₂, hkey, hnil⟩ := Machine.takes_snoc_iff.mp (show Takes m₁ ([] ++ [_]) m' from hrest)
  obtain rfl := Machine.takes_nil_iff.mp hnil
  exact except_bind_eq_ok.mpr ⟨_, hvalue, except_bind_eq_ok.mpr ⟨_, hkey, hreplace⟩⟩

/-- Several entries are added to a dictionary from above a mark. -/
theorem setItems (h : Task.Done known ops copied added (.values (Value.dict fs).members)) :
    Task.Done known (.mark :: ops ++ [.setItems]) copied added (.entries fs) := by
  intro es hkeys hapart hlevel
  have hnew : (Value.dict fs).KeysHashable := fun e he => hkeys e (List.mem_append_right es he)
  have hpairs : Node.requirePairs ((Value.dict fs).members.map .exact) = .ok () := by
    refine Node.requirePairs_eq_ok_iff.mpr ?_
    rw [List.length_map, Value.length_members_dict]
    omega
  exact (h (level_le_of_entries hlevel)).gathers_marked.fills nofun
    (·.setItems ((Value.dict fs).members.map .exact)) (Node.setItems_exact hnew hapart hlevel)
    fun _ _ _ htaken hreplace =>
      except_bind_eq_ok.mpr ⟨_, htaken, except_bind_eq_ok.mpr ⟨(), hpairs, hreplace⟩⟩

end Task.Done

/-! ## Emissions -/

theorem Atom.members_eq_nil (h : Atom v) : v.members = [] := by
  match v, h with
  | .tuple [], _ => rfl
  | .none, _ | .bool _, _ | .int _, _ | .float _, _ | .str _, _ | .bytes _, _ => rfl

theorem Atom.ofValue_eq (h : Atom v) : Content.ofValue v = .fixed v := by
  match v, h with
  | .tuple [], _ => rfl
  | .none, _ | .bool _, _ | .int _, _ | .float _, _ | .str _, _ | .bytes _, _ => rfl

/-- **Opcodes do what they are emitted for.** -/
theorem Emits.done {task : Task} (h : Emits known ops task copied added) :
    task.Done known ops copied added := by
  induction h with
  | atom hatom hkeep =>
    intro _
    exact (pushes_leaf hatom.members_eq_nil).remembered hatom.ofValue_eq hkeep
  | get hid => exact fun _ => pushes_get hid
  | tupleOf _ _ _ hkeep ih => exact ih.tupleOf hkeep
  | tuple _ hkeep ih => exact ih.tuple hkeep
  | list hkeep _ ih => exact fun hlevel => (ih [] hlevel).pushes rfl nofun hkeep
  | dict hkeep hkeys hapart _ ih =>
    exact fun hlevel => (ih [] hkeys hapart hlevel).pushes rfl nofun hkeep
  | noValues => exact .values_nil
  | andValues _ _ ih ih' => exact ih.values_cons ih'
  | noItems => exact .items_nil
  | append _ _ ih ih' =>
    rw [List.append_cons]
    exact ih.append.items_append ih'
  | appends _ _ ih ih' =>
    rw [List.append_cons]
    exact ih.appends.items_append ih'
  | noEntries => exact .entries_nil
  | setItem _ _ ih ih' =>
    rw [List.append_cons]
    exact ih.setItem.entries_append ih'
  | setItems _ _ ih ih' =>
    rw [List.append_cons]
    exact ih.setItems.entries_append ih'

/-! ## Bytes -/

theorem step_of_spells {m : Machine} {raw behind : Bytes} {status : Status}
    (h : Opcode.Spells behind raw op) (happly : m.apply op = .ok status) (pos : Nat) :
    step m ⟨pos, raw ++ behind⟩ = .ok (status, ⟨pos + raw.length, behind⟩) :=
  step_eq_ok_iff.mpr ⟨op, read_eq_ok_iff.mpr ⟨raw, h, rfl, rfl⟩, happly⟩

/-- An opcode that does not stop the run leaves fewer bytes for the rest of it. -/
theorem run_of_spells {m m' : Machine} {raw behind : Bytes} {steps : Nat} {r : Value × Input}
    {pos : Nat} (h : Opcode.Spells behind raw op) (hop : op ≠ .stop) (hexec : m.exec op = .ok m')
    (hsteps : (raw ++ behind).length ≤ steps)
    (hrest : ∀ steps, behind.length ≤ steps →
      run steps m' ⟨pos + raw.length, behind⟩ = .ok r) :
    run steps m ⟨pos, raw ++ behind⟩ = .ok r := by
  -- an opcode has a byte at least, so there is a step for it and enough are left
  have hraw := h.length_pos
  rw [List.length_append] at hsteps
  obtain ⟨steps, rfl⟩ : ∃ k, steps = k + 1 := ⟨steps - 1, by omega⟩
  refine run_succ_eq_ok_iff.mpr (.inr ⟨m', _, step_of_spells h ?_ pos, hrest steps (by omega)⟩)
  exact apply_running_iff.mpr ⟨hop, hexec⟩

/-- **The bytes of opcodes make a machine go through the opcodes**, and give the value on top. -/
theorem run_of_spelled {m m' m'' : Machine} {n : Node} {bytes : Bytes} (h : Spelled bytes ops)
    (hruns : Runs ops m m') (hpop : m'.pop = .ok (n, m'')) (pos : Nat) :
    ∃ stop, ∀ steps, bytes.length ≤ steps →
      run steps m ⟨pos, bytes⟩ = .ok (n.value, ⟨stop, []⟩) := by
  induction h generalizing m pos with
  | @stop raw h =>
    cases hruns
    refine ⟨pos + raw.length, fun steps hsteps => ?_⟩
    have hraw := h.length_pos
    obtain ⟨steps, rfl⟩ : ∃ k, steps = k + 1 := ⟨steps - 1, by omega⟩
    have hstep := step_of_spells h (apply_stopped_iff.mpr ⟨rfl, n, m'', hpop, rfl⟩) pos
    rw [List.append_nil] at hstep
    exact run_succ_eq_ok_iff.mpr (.inl hstep)
  | frame h _ ih =>
    obtain ⟨stop, hrest⟩ := ih hruns (pos + _)
    exact ⟨stop, fun steps hsteps => run_of_spells h nofun rfl hsteps hrest⟩
  | next h _ ih =>
    cases hruns with
    | cons hop hexec hruns =>
      obtain ⟨stop, hrest⟩ := ih hruns (pos + _)
      exact ⟨stop, fun steps hsteps => run_of_spells h hop hexec hsteps hrest⟩

/-- **A pickle of plain data gives that data**, when it is not nested too deep and not too many of
    its values are copies. -/
theorem load_of_pickles {bytes : Bytes} (h : Pickles bytes v copied) (hlevel : v.level ≤ maxDepth)
    (hcopied : copied ≤ maxShared) : load bytes = .ok v := by
  obtain ⟨version, body, ops, added, hversion, rfl, hspelled, hemits⟩ := h
  -- at the start nothing is known and nothing was copied
  obtain ⟨m, ids, hruns, hstack, -⟩ := hemits.done hlevel .start Machine.agrees_start
    (by rwa [Machine.start, Nat.zero_add])
  have hpop := Machine.pop_eq_ok_iff.mpr ⟨_, ids, hstack, rfl⟩
  obtain ⟨stop, hrun⟩ := run_of_spelled hspelled hruns hpop 2
  rw [Node.value_exact] at hrun
  exact load_eq_ok_iff.mpr ⟨version, body, stop, hversion, rfl,
    hrun _ (Nat.le_succ_of_le (Nat.le_succ _))⟩

/-- A pair of a list and its copy, in a frame.  The list is remembered before it is filled. -/
def pair : Bytes :=
  [0x80, 4, 0x95, 13, 0, 0, 0, 0, 0, 0, 0, 0x5D, 0x94, 0x28, 0x4B, 1, 0x4B, 2, 0x65, 0x68, 0, 0x86,
    0x94, 0x2E]

/-- The pair gives a list and its copy, for which three values are copied. -/
theorem load_pair :
    Pickles pair (.tuple [.list [.int 1, .int 2], .list [.int 1, .int 2]]) 3 ∧
      load pair = .ok (.tuple [.list [.int 1, .int 2], .list [.int 1, .int 2]]) := by
  have hint : ∀ n : Int64, Emits [none] [.push (.int n)] (.value (.int n)) 0 [] := fun _ =>
    .atom trivial .not
  have hitems := Emits.appends ((hint 1).andValues ((hint 2).andValues .noValues)) .noItems
  have hlist : Emits [] _ (.value (.list [.int 1, .int 2])) 0 _ :=
    .list (.memoize (by decide)) hitems
  have hcopy : Emits [some (.list [.int 1, .int 2])] [.get 0] _ _ _ := .get rfl
  have hemits := (hlist.andValues (hcopy.andValues .noValues)).tupleOf (by decide) (by decide)
    (.memoize (by decide))
  have hone : ∀ behind, Opcode.Spells behind [0x4B, 1] (.push (.int 1)) := fun _ =>
    .natural (by decide) (littleEndian_singleton 1) rfl
  have htwo : ∀ behind, Opcode.Spells behind [0x4B, 2] (.push (.int 2)) := fun _ =>
    .natural (by decide) (littleEndian_singleton 2) rfl
  have hget : ∀ behind, Opcode.Spells behind [0x68, 0] (.get 0) := fun _ =>
    .get (by decide) (littleEndian_singleton 0)
  have hspelled := Spelled.next .emptyList (.next .memoize (.next .mark (.next (hone _)
    (.next (htwo _) (.next .appends (.next (hget _) (.next .tupleOfTwo (.next .memoize
      (.stop .stop)))))))))
  have hframe : Opcode.Spells (pair.drop 11) [0x95, 13, 0, 0, 0, 0, 0, 0, 0] .frame :=
    .frame ⟨rfl, rfl⟩ (by decide)
  have hpickles : Pickles pair (.tuple [.list [.int 1, .int 2], .list [.int 1, .int 2]]) 3 :=
    ⟨4, _, _, _, by decide, rfl, .frame hframe hspelled, hemits⟩
  exact ⟨hpickles, load_of_pickles hpickles (by decide) (by decide)⟩

end SealedStore.Pickle
