/-
  Why streams are refused as nested too deep.

  The depth of a node is counted when nodes are joined, and values are not looked into again.  It
  is never less than the level of the value.  It is that level as long as every value that was put
  into a dictionary is still there, or something as deep is: when the deepest value of a dictionary
  is replaced by one that is not as deep, the value gets lower and the depth does not (`Forgets`).
  The depth is exact until then and in every order of opcodes (`measured_of_reaches`), so a
  container that is refused before anything was forgotten is really nested too deep.
-/
import SealedStore.Proofs.Codec.Writing
import SealedStore.Proofs.Pickle.Joining

namespace SealedStore.Pickle

/-! ## What is forgotten -/

namespace Step

/-- The opcode makes the container, or makes it of one that was there. -/
def Builds (s : Step) (c : Value) : Prop :=
  ∃ base items, s.before.Joins s.op base items ∧ c = base.value.join (Node.values items)

/-- The opcode puts entries into a dictionary, which is less deep then than if all of them had been
    put behind those that were there: something deeper was replaced. -/
def Forgets (s : Step) : Prop :=
  ∃ base items entries, s.before.Joins s.op base items ∧ base.value = .dict entries ∧
    (base.value.join (Node.values items)).level <
      (Value.dict (entries ++ Node.pairUp (Node.values items))).level

/-- A container that is lower than what was heaped up has forgotten something, and it is a
    dictionary. -/
theorem forgets_of_lt {s : Step} {base : Node} {items : List Node}
    (hjoins : s.before.Joins s.op base items)
    (hlt : (base.value.join (Node.values items)).level <
      (base.value.heap (Node.values items)).level) : s.Forgets := by
  cases hvalue : base.value with
  | dict entries =>
    refine ⟨base, items, entries, hjoins, hvalue, ?_⟩
    rwa [hvalue] at hlt ⊢
  | _ =>
    -- nothing is replaced in any other container
    rw [hvalue] at hlt
    exact absurd hlt (Nat.lt_irrefl _)

end Step

/-! ## Depths -/

/-- The depth of a node is no less than the level of its value, and no more if nothing was
    forgotten. -/
structure Node.Measured (clean : Prop) (n : Node) : Prop where
  le : n.value.level ≤ n.depth
  ge : clean → n.depth ≤ n.value.level

namespace Node

variable {clean : Prop} {base n : Node} {items : List Node}

theorem measured_leaf {v : Value} (h : v.members = []) : (leaf v).Measured clean := by
  have hlevel : (leaf v).value.level = 0 := by rw [value_leaf, Value.level_eq, h, Value.levelItems]
  exact ⟨Nat.le_of_eq hlevel, fun _ => Nat.zero_le _⟩

/-- Depths that are no less than levels give a container that is no less deep than it is nested, -/
theorem levelItems_le_depthOver (h : ∀ n ∈ items, n.Measured clean) :
    Value.levelItems (values items) ≤ depthOver items := by
  rw [Value.levelItems_le_iff]
  intro w hw
  obtain ⟨n, hn, rfl⟩ := List.mem_map.mp hw
  exact Nat.lt_of_le_of_lt (h n hn).le (depth_lt_depthOver hn)

/-- and exact ones give one that is no deeper. -/
theorem depthOver_le_levelItems (hclean : clean) (h : ∀ n ∈ items, n.Measured clean) :
    depthOver items ≤ Value.levelItems (values items) := by
  rw [depthOver_le_iff]
  intro n hn
  have hlevel : n.value.level < Value.levelItems (values items) :=
    Value.levelItems_le_iff.mp (Nat.le_refl _) n.value (List.mem_map_of_mem hn)
  exact Nat.lt_of_le_of_lt ((h n hn).ge hclean) hlevel

/-- **Joining measures**, unless it forgets. -/
theorem Joined.measured (h : Joined base items n) (hbase : base.Measured clean)
    (hitems : ∀ n ∈ items, n.Measured clean)
    (hkept : clean → (base.value.heap (values items)).level ≤
      (base.value.join (values items)).level) : n.Measured clean := by
  have hheap : (base.value.heap (values items)).level =
      max base.value.level (Value.levelItems (values items)) := h.takes.level_heap
  constructor
  · rw [h.value, h.depth]
    calc (base.value.join (values items)).level
        ≤ (base.value.heap (values items)).level := Value.level_join_le _ _
      _ = max base.value.level (Value.levelItems (values items)) := hheap
      _ ≤ max base.depth (depthOver items) :=
        max_le_max hbase.le (levelItems_le_depthOver hitems)
  · intro hclean
    rw [h.value, h.depth]
    calc max base.depth (depthOver items)
        ≤ max base.value.level (Value.levelItems (values items)) :=
        max_le_max (hbase.ge hclean) (depthOver_le_levelItems hclean hitems)
      _ = (base.value.heap (values items)).level := hheap.symm
      _ ≤ (base.value.join (values items)).level := hkept hclean

end Node

/-! ## Runs -/

namespace Machine

variable {clean : Prop} {m m' : Machine} {op : Opcode}

theorem members_of_spells {behind raw : Bytes} {v : Value}
    (h : (Opcode.push v).Spells behind raw) : v.members = [] := by
  cases h <;> rfl

/-- What is joined of nodes that are measured is measured. -/
theorem Joins.measured {base n : Node} {items : List Node} (h : Joins m op base items)
    (hjoined : base.Joined items n) (hm : ∀ n, m.Has n → n.Measured clean)
    (hclean : clean → ¬ (Step.mk m op).Forgets) : n.Measured clean := by
  obtain ⟨hbase, hitems⟩ := h.has
  refine hjoined.measured ?_ (fun n hn => hm n (hitems n hn)) ?_
  · rcases hbase with hbase | ⟨v, hv, rfl⟩
    · exact hm base hbase
    · exact Node.measured_leaf hv
  · intro hc
    exact Nat.not_lt.mp fun hlt => hclean hc (Step.forgets_of_lt h hlt)

/-- **An opcode keeps depths exact**, unless it forgets. -/
theorem measured_of_exec (hexec : m.exec op = .ok m')
    (hpush : ∀ v, op = .push v → v.members = []) (hm : ∀ n, m.Has n → n.Measured clean)
    (hclean : clean → ¬ (Step.mk m op).Forgets) : ∀ n, m'.Has n → n.Measured clean := by
  intro n hn
  rcases has_of_exec hexec hn with hkept | ⟨hop, rfl⟩ | ⟨hjoins, hjoined, -⟩
  · exact hm n hkept
  · exact Node.measured_leaf (hpush _ hop)
  · exact hjoins.measured hjoined hm hclean

/-- **All depths are exact as long as nothing was forgotten**, whatever was run. -/
theorem measured_of_reaches {start i : Input} {past : List Step} (h : Reaches start past m i)
    (hclean : clean → ∀ s ∈ past, ¬ s.Forgets) : ∀ n, m.Has n → n.Measured clean := by
  induction h with
  | first => exact fun n hn => absurd hn not_has_start
  | @next past m m' op i j _ hread hstep ih =>
    obtain ⟨op', hread', happly⟩ := step_eq_ok_iff.mp hstep
    obtain ⟨rfl, -⟩ := Prod.mk.inj (Except.ok.inj (hread'.symm.trans hread))
    obtain ⟨-, hexec⟩ := apply_running_iff.mp happly
    obtain ⟨raw, hspells, -⟩ := read_eq_ok_iff.mp hread
    have hpast : clean → ∀ s ∈ past, ¬ s.Forgets :=
      fun hc s hs => hclean hc s (List.mem_append_left _ hs)
    refine measured_of_exec hexec ?_ (ih hpast) ?_
    · rintro v rfl
      exact members_of_spells hspells
    · exact fun hc => hclean hc _ (List.mem_append_right _ List.mem_cons_self)

end Machine

/-! ## Refusal -/

theorem locates_tooDeep {i : Input} {offset : Nat} :
    ¬ Locates Cause.OfCode i (.corrupt offset .tooDeep) := by
  intro h
  rcases ReportedAt.own_or h with hcode | hoperand
  · exact hcode
  · exact hoperand

/-- An opcode that is refused as too deep was read, and it is refused for what it builds. -/
theorem overfills_of_fails {start i : Input} {offset : Nat}
    (h : Fails start i (.corrupt offset .tooDeep)) :
    ∃ past m op j, Reaches start past m i ∧ i.pos = offset ∧ Opcode.read i = .ok (op, j) ∧
      m.Overfills op := by
  cases h with
  | header hheader => exact absurd (tells_header _ _ hheader) locates_tooDeep
  | @opcode past m _ _ hreaches hstep =>
    rw [step] at hstep
    cases hread : Opcode.read i with
    | error e =>
      rw [hread] at hstep
      obtain rfl := Except.error.inj hstep
      exact absurd (tells_read _ _ hread) locates_tooDeep
    | ok found =>
      obtain ⟨op, j⟩ := found
      rw [hread] at hstep
      change (located i.pos (m.apply op) >>= _) = _ at hstep
      cases happly : m.apply op with
      | ok status =>
        rw [happly] at hstep
        cases hstep
      | error cause =>
        rw [happly] at hstep
        obtain ⟨hpos, rfl⟩ := CodecError.corrupt.inj (Except.error.inj hstep)
        refine ⟨past, m, op, j, hreaches, hpos, rfl, ?_⟩
        have hacts : Tells (fun cause => cause = .tooDeep → m.Overfills op) (m.apply op) := by
          unfold Machine.apply
          split
          · exact (Machine.tells_of_stack m.tells_pop).bind fun _ _ => tells_ok _
          · refine Tells.bind ?_ fun _ _ => tells_ok _
            rintro cause hexec rfl
            exact Machine.overfills_of_exec hexec
        exact hacts _ happly rfl

/-- **A stream that is refused as too deep** comes to an opcode whose container is too deep to be
    written, unless a dictionary forgot, then or before, how deep it had been. -/
theorem refused_as_too_deep {bytes : Bytes} {offset : Nat}
    (h : load bytes = .error (.corrupt offset .tooDeep)) :
    ∃ past m i op j c, Reaches ⟨0, bytes⟩ past m i ∧ i.pos = offset ∧
      Opcode.read i = .ok (op, j) ∧ (Step.mk m op).Builds c ∧
      ((maxDepth < c.level ∧ ∃ e, Payload.encode c = .error e) ∨
        ∃ s ∈ past ++ [⟨m, op⟩], s.Forgets) := by
  obtain ⟨i, hfails⟩ : ∃ i, Fails ⟨0, bytes⟩ i (.corrupt offset .tooDeep) := by
    rcases fails_of_load h with ⟨_, _, heq, hgoes⟩ | hfails
    · obtain ⟨rfl, rfl⟩ := CodecError.corrupt.inj heq
      obtain ⟨_, _, -, -, heq⟩ := hgoes.stream
      nomatch heq
    · exact hfails
  obtain ⟨past, m, op, j, hreaches, hpos, hread, base, items, n, hjoins, hjoined, hdepth⟩ :=
    overfills_of_fails hfails
  refine ⟨past, m, i, op, j, n.value, hreaches, hpos, hread, ?_, ?_⟩
  · exact ⟨base, items, hjoins, hjoined.value⟩
  by_cases hforgets : ∃ s ∈ past ++ [⟨m, op⟩], s.Forgets
  · exact .inr hforgets
  -- nothing was forgotten, so the depth that was refused is the level
  have hclean : ∀ s ∈ past ++ [⟨m, op⟩], ¬ s.Forgets := fun s hs hf => hforgets ⟨s, hs, hf⟩
  have hm : ∀ n, m.Has n → n.Measured True := Machine.measured_of_reaches hreaches
    fun _ s hs => hclean s (List.mem_append_left _ hs)
  have hn : n.Measured True :=
    hjoins.measured hjoined hm fun _ => hclean _ (List.mem_append_right _ List.mem_cons_self)
  have hlevel : maxDepth < n.value.level := Nat.lt_of_lt_of_le hdepth (hn.ge trivial)
  refine .inl ⟨hlevel, ?_⟩
  cases hencode : Payload.encode n.value with
  | error e => exact ⟨e, rfl⟩
  | ok b =>
    have hle := (Payload.exists_encodeAt_iff.mp ⟨b, hencode⟩).1
    rw [Nat.zero_add] at hle
    exact absurd hlevel (Nat.not_lt.mpr hle)

/-- An empty tuple inside 129 tuples. -/
def towering : Bytes := [0x80, 4, 0x29] ++ List.replicate 129 0x85 ++ [0x2E]

set_option maxRecDepth 4000 in
/-- The tower is refused at its last tuple, for a container that cannot be written or one that has
    forgotten something. -/
theorem towering_refused :
    load towering = .error (.corrupt 131 .tooDeep) ∧
      ∃ past m i op j c, Reaches ⟨0, towering⟩ past m i ∧ i.pos = 131 ∧
        Opcode.read i = .ok (op, j) ∧ (Step.mk m op).Builds c ∧
        ((maxDepth < c.level ∧ ∃ e, Payload.encode c = .error e) ∨
          ∃ s ∈ past ++ [⟨m, op⟩], s.Forgets) := by
  have hload : load towering = .error (.corrupt 131 .tooDeep) := rfl
  exact ⟨hload, refused_as_too_deep hload⟩

/-! ## A dictionary that forgets -/

/-- Opcodes that put the top into tuples, one inside the other. -/
def enclosing (count : Nat) (behind : Bytes) : Bytes := List.replicate count 0x85 ++ behind

/-- Zero as a key of what is 128 deep, and then of nothing. -/
def shadowing : Bytes :=
  [0x80, 4, 0x28, 0x4B, 0, 0x29] ++ enclosing 128 [0x4B, 0, 0x4E, 0x64, 0x2E]

/-- A tuple of the top is one deeper than the top, and nothing else changes. -/
theorem exec_enclose (below : Array Item) (memo : Memo) (shared : Nat) {n : Node}
    (h : n.depth < maxDepth) :
    ∃ n', n'.depth = n.depth + 1 ∧ (Machine.mk (below.push (.node n [])) memo shared).exec
      (.tupleOf 1) = .ok ⟨below.push (.node n' []), memo, shared⟩ := by
  have hpop : (Machine.mk (below.push (.node n [])) memo shared).popOnto 1 [] =
      .ok ([n], ⟨below, memo, shared⟩) := by
    refine Machine.popOnto_eq_ok_iff.mpr ⟨[] ++ [n], rfl, rfl, .snoc ?_ (.nil _)⟩
    exact Machine.pop_eq_ok_iff.mpr ⟨below, [], rfl, rfl⟩
  have hdepth : Node.depthOver [n] = n.depth + 1 := Nat.zero_max _
  have hle : Node.depthOver [n] ≤ maxDepth := by rwa [hdepth]
  have hsequence : ∃ n', Node.sequence .tuple [n] = .ok n' ∧ n'.depth = n.depth + 1 :=
    ⟨_, Node.sequence_eq_ok_iff.mpr ⟨rfl, hle⟩, hdepth⟩
  obtain ⟨n', hn', hdepth'⟩ := hsequence
  refine ⟨n', hdepth', ?_⟩
  exact except_bind_eq_ok.mpr ⟨_, hpop, except_bind_eq_ok.mpr ⟨n', hn', rfl⟩⟩

/-- A run goes on over as many such opcodes as there is depth for. -/
theorem reaches_enclosed {start : Input} {past : List Step} {below : Array Item} {n : Node}
    {memo : Memo} {shared pos count : Nat} {behind : Bytes}
    (h : Reaches start past ⟨below.push (.node n []), memo, shared⟩ ⟨pos, enclosing count behind⟩)
    (hdepth : n.depth + count ≤ maxDepth) :
    ∃ past' n', Reaches start past' ⟨below.push (.node n' []), memo, shared⟩
      ⟨pos + count, behind⟩ := by
  induction count generalizing past n pos with
  | zero => exact ⟨past, n, h⟩
  | succ count ih =>
    have hlt : n.depth < maxDepth := by omega
    obtain ⟨n', hn', hexec⟩ := exec_enclose below memo shared hlt
    have hread : Opcode.read ⟨pos, enclosing (count + 1) behind⟩ =
        .ok (.tupleOf 1, ⟨pos + 1, enclosing count behind⟩) := rfl
    have hop : Opcode.tupleOf 1 ≠ .stop := nofun
    have happly := apply_running_iff.mpr ⟨hop, hexec⟩
    have hnext := h.next hread (step_eq_ok_iff.mpr ⟨_, hread, happly⟩)
    obtain ⟨past', n'', hreaches⟩ := ih hnext (by omega)
    rw [Nat.add_assoc, Nat.add_comm 1] at hreaches
    exact ⟨past', n'', hreaches⟩

set_option maxRecDepth 4000 in
/-- The dictionary that is refused has one entry, a scalar under a scalar, and can be written. -/
theorem shadowing_refused :
    load shadowing = .error (.corrupt 137 .tooDeep) ∧
      ∃ past m, Reaches ⟨0, shadowing⟩ past m ⟨137, [0x64, 0x2E]⟩ ∧
        (Step.mk m .dict).Builds (.dict [(.int 0, .none)]) ∧
        (Value.dict [(.int 0, .none)]).level = 1 ∧
        ∃ b, Payload.encode (.dict [(.int 0, .none)]) = .ok b := by
  refine ⟨rfl, ?_⟩
  have hfirst : Reaches ⟨0, shadowing⟩ [] .start ⟨2, shadowing.drop 2⟩ := .first rfl
  have hempty := ((hfirst.next rfl rfl).next rfl rfl).next rfl rfl
  obtain ⟨past, n, hdeep⟩ := reaches_enclosed hempty (Nat.le_refl 128)
  have hnone := (hdeep.next rfl rfl).next rfl rfl
  exact ⟨_, _, hnone, ⟨_, _, .dict rfl, rfl⟩, rfl, _, rfl⟩

end SealedStore.Pickle
