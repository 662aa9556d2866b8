/-
  Where streams fail.

  A stream that is refused is refused for one of its opcodes, and that one stands where the opcodes
  before it ended (`fails_of_stream`).  What is wrong with what an opcode is or does is reported
  there.  What is wrong with its operands is not: bytes that are missing, or that are no text, are
  reported where they should be, behind the code and the length in front of them (`ReportedAt`).

  So an offset is that of an opcode just when the opcode has all its operands, or when there is no
  opcode at all.  Errors go through the readers and the machine alike, and so one predicate on
  outcomes (`Tells`) carries both.
-/
import SealedStore.Proofs.Pickle.Remembering
import SealedStore.Proofs.Pickle.Streams

namespace SealedStore

/-- Bytes are not there. -/
def Cause.Missing : Cause → Prop
  | .endWithoutStop | .missingBytes _ _ => True
  | _ => False

/-- The cause lies in the operands of an opcode: their bytes are not there, or are no text. -/
def Cause.OfOperand : Cause → Prop
  | .endWithoutStop | .missingBytes _ _ | .invalidText _ => True
  | _ => False

theorem Cause.Missing.ofOperand {cause : Cause} (h : cause.Missing) : cause.OfOperand := by
  cases cause <;> first | exact trivial | exact absurd h id

/-- The opcode is none, or one that cannot stand there. -/
def Cause.OfCode : Cause → Prop
  | .noProtocol | .unsupportedProtocol _ | .longFrame _ _ | .unknownOpcode _ => True
  | _ => False

theorem Cause.OfCode.not_ofOperand {cause : Cause} (h : cause.OfCode) : ¬ cause.OfOperand := by
  cases cause <;> first | exact id | exact absurd h id

/-- There is not on the stack or in the memo what an opcode takes from there, or no room for it. -/
def Cause.OfStack : Cause → Prop
  | .emptyStack | .markForValue | .noMark | .markRemembered => True
  | .undefinedMemo _ | .lostMemo _ | .memoFull | .tooShared => True
  | _ => False

theorem Cause.OfStack.not_ofOperand {cause : Cause} (h : cause.OfStack) : ¬ cause.OfOperand := by
  cases cause <;> first | exact id | exact absurd h id

/-- The input is what is left of the bytes. -/
def Input.LeftOf (bytes : Bytes) (i : Input) : Prop :=
  ∃ done, bytes = done ++ i.rest ∧ i.pos = done.length

/-- What a reader leaves of what is left is left of the bytes. -/
theorem Input.LeftOf.advances {bytes : Bytes} {i j : Input} (h : i.LeftOf bytes)
    (hij : i.Advances j) : j.LeftOf bytes := by
  obtain ⟨done, hbytes, hpos⟩ := h
  obtain ⟨raw, -, hrest, hpos'⟩ := hij
  refine ⟨done ++ raw, ?_, ?_⟩
  · rw [hbytes, hrest, List.append_assoc]
  · rw [hpos', hpos, List.length_append]

namespace Pickle

open Reader

/-! ## What is reported where -/

/-- The codes of opcodes that have a length in front of their operand, with its width. -/
def sizedCodes : List (UInt8 × Nat) :=
  [(0x8A, 1), (0x8C, 1), (0x43, 1), (0x58, 4), (0x42, 4), (0x8D, 8), (0x8E, 8)]

/-- Where an opcode that stands at a position, in front of these bytes, is reported to fail.  The
    causes are those for which it is itself to blame. -/
inductive ReportedAt (own : Cause → Prop) (pos : Nat) : Bytes → Nat → Cause → Prop
  /-- There is no opcode. -/
  | ended : ReportedAt own pos [] pos .endWithoutStop
  /-- It is not an opcode, or does not do here what it should. -/
  | code {code : UInt8} {rest : Bytes} {cause : Cause} :
      own cause → ReportedAt own pos (code :: rest) pos cause
  /-- Its operand is missing, or the length of its operand. -/
  | operand {code : UInt8} {rest : Bytes} {cause : Cause} :
      cause.Missing → ReportedAt own pos (code :: rest) (pos + 1) cause
  /-- What stands behind the length is missing or no text. -/
  | sized {code : UInt8} {width : Nat} {rest : Bytes} {cause : Cause} :
      (code, width) ∈ sizedCodes → cause.OfOperand →
      ReportedAt own pos (code :: rest) (pos + 1 + width) cause

section
variable {own own' : Cause → Prop} {pos offset : Nat} {bytes : Bytes} {cause : Cause}

theorem ReportedAt.mono (h : ReportedAt own pos bytes offset cause)
    (himp : ∀ cause, own cause → own' cause) : ReportedAt own' pos bytes offset cause := by
  cases h with
  | ended => exact .ended
  | code hcause => exact .code (himp _ hcause)
  | operand hmissing => exact .operand hmissing
  | sized hcode hoperand => exact .sized hcode hoperand

/-- An opcode is to blame, or its operands are. -/
theorem ReportedAt.own_or (h : ReportedAt own pos bytes offset cause) :
    own cause ∨ cause.OfOperand := by
  cases h with
  | ended => exact .inr trivial
  | code hcause => exact .inl hcause
  | operand hmissing => exact .inr hmissing.ofOperand
  | sized _ hoperand => exact .inr hoperand

/-- Nothing is reported in front of the opcode. -/
theorem ReportedAt.pos_le (h : ReportedAt own pos bytes offset cause) : pos ≤ offset := by
  cases h with
  | ended => exact Nat.le_refl _
  | code _ => exact Nat.le_refl _
  | operand _ => exact Nat.le_succ _
  | sized _ _ => omega

/-- **An offset is that of the opcode** just when the operands are not at fault. -/
theorem ReportedAt.eq_pos_iff (h : ReportedAt (¬ Cause.OfOperand ·) pos bytes offset cause) :
    offset = pos ↔ bytes = [] ∨ ¬ cause.OfOperand := by
  cases h with
  | ended => exact iff_of_true rfl (.inl rfl)
  | code hcause => exact iff_of_true rfl (.inr hcause)
  | operand hmissing =>
    refine iff_of_false (by omega) ?_
    rintro (hnil | hcause)
    · nomatch hnil
    · exact hcause hmissing.ofOperand
  | sized _ hoperand =>
    refine iff_of_false (by omega) ?_
    rintro (hnil | hcause)
    · nomatch hnil
    · exact hcause hoperand

end

/-- If the error is corruption, it is reported as that of the opcode at the input. -/
def Locates (own : Cause → Prop) (i : Input) : CodecError → Prop
  | .corrupt offset cause => ReportedAt own i.pos i.rest offset cause
  | _ => True

theorem Locates.mono {own own' : Cause → Prop} {i : Input} {e : CodecError} (h : Locates own i e)
    (himp : ∀ cause, own cause → own' cause) : Locates own' i e := by
  cases e with
  | corrupt offset cause => exact ReportedAt.mono h himp
  | _ => trivial

/-! ## Errors of outcomes -/

/-- If the outcome is an error, the predicate holds of it. -/
def Tells {ε α : Type} (R : ε → Prop) (r : Except ε α) : Prop := ∀ e, r = .error e → R e

section
variable {ε α β : Type} {R : ε → Prop}

theorem tells_ok (x : α) : Tells R (.ok x) := nofun

theorem tells_error {e : ε} (h : R e) : Tells R (.error e : Except ε α) := by
  intro e' heq
  obtain rfl := Except.error.inj heq
  exact h

theorem Tells.mono {S : ε → Prop} {r : Except ε α} (h : Tells R r) (himp : ∀ e, R e → S e) :
    Tells S r := fun e heq => himp e (h e heq)

/-- **What comes first tells, or what comes after it.** -/
theorem Tells.bind {x : Except ε α} {f : α → Except ε β} (hx : Tells R x)
    (hf : ∀ a, x = .ok a → Tells R (f a)) : Tells R (x >>= f) := by
  cases x with
  | error e => exact tells_error (hx e rfl)
  | ok a => exact hf a rfl

end

/-! ## Operands -/

/-- A reader takes off so many bytes, or tells that they are missing. -/
structure TakesOff {α : Type} (width : Nat) (read : Reader α) : Prop where
  missing : ∀ {i e}, read i = .error e → ∃ cause : Cause, e = .corrupt i.pos cause ∧ cause.Missing
  pos_eq : ∀ {i x j}, read i = .ok (x, j) → j.pos = i.pos + width

theorem takesOff_operandByte : TakesOff 1 operandByte where
  missing {i e} h := by
    obtain ⟨pos, _ | ⟨b, rest⟩⟩ := i
    · exact ⟨_, (Except.error.inj h).symm, trivial⟩
    · nomatch h
  pos_eq {i x j} h := by
    obtain ⟨_, rfl, -, hpos⟩ := (recognises_byte _ i x j).mp h
    exact hpos

theorem takesOff_take (width : Nat) : TakesOff width (take width) where
  missing {i e} h := by
    unfold take at h
    split at h
    · nomatch h
    · exact ⟨_, (Except.error.inj h).symm, trivial⟩
  pos_eq {i x j} h := by
    obtain ⟨_, ⟨-, hlen⟩, -, hpos⟩ := (recognises_take width i x j).mp h
    rw [hpos, hlen]

/-- A number is taken off like the bytes that it is made of. -/
theorem takesOff_operandNat (width : Nat) : TakesOff width (operandNat width) where
  missing {i e} h := by
    unfold operandNat at h
    cases htake : take width i with
    | error e' =>
      rw [htake] at h
      obtain rfl := Except.error.inj h
      exact (takesOff_take width).missing htake
    | ok found =>
      rw [htake] at h
      nomatch h
  pos_eq {i x j} h := by
    obtain ⟨_, ⟨hlen, -⟩, -, hpos⟩ := (recognises_operandNat width i x j).mp h
    rw [hpos, hlen]

section
variable {α β : Type} {pos width : Nat} {code : UInt8} {rest : Bytes} {i : Input}

/-- What is read behind the code is missing behind the code. -/
theorem tells_operand {read : Reader α} {next : α × Input → Except CodecError β}
    (h : TakesOff width read) (hi : i.pos = pos + 1)
    (hnext : ∀ x j, j.pos = pos + 1 + width →
      Tells (Locates Cause.OfCode ⟨pos, code :: rest⟩) (next (x, j))) :
    Tells (Locates Cause.OfCode ⟨pos, code :: rest⟩) (read i >>= next) := by
  cases hread : read i with
  | error e =>
    obtain ⟨cause, rfl, hmissing⟩ := h.missing hread
    rw [hi]
    exact tells_error (ReportedAt.operand hmissing)
  | ok found =>
    obtain ⟨x, j⟩ := found
    have hpos : j.pos = i.pos + width := h.pos_eq hread
    exact hnext x j (by rw [hpos, hi])

section
variable (hcode : (code, width) ∈ sizedCodes) (hi : i.pos = pos + 1 + width)
include hcode hi

/-- What is read behind the length is missing behind the length. -/
theorem tells_block {size : Nat} {next : Bytes × Input → Except CodecError β}
    (hnext : ∀ raw j, Tells (Locates Cause.OfCode ⟨pos, code :: rest⟩) (next (raw, j))) :
    Tells (Locates Cause.OfCode ⟨pos, code :: rest⟩) (take size i >>= next) := by
  cases htake : take size i with
  | error e =>
    obtain ⟨cause, rfl, hmissing⟩ := (takesOff_take size).missing htake
    rw [hi]
    exact tells_error (ReportedAt.sized hcode hmissing.ofOperand)
  | ok found => exact hnext found.1 found.2

/-- What is no text is reported where it begins. -/
theorem tells_text {size : Nat} :
    Tells (Locates Cause.OfCode ⟨pos, code :: rest⟩) (do
      let (raw, k) ← take size i
      let s ← utf8 i.pos raw
      .ok (Opcode.push (.str s), k)) := by
  refine tells_block hcode hi fun raw k => Tells.bind ?_ fun s _ => tells_ok _
  unfold utf8
  split
  · exact tells_ok _
  · rw [hi]
    exact tells_error (ReportedAt.sized hcode trivial)

theorem tells_signed (size : Nat) :
    Tells (Locates Cause.OfCode ⟨pos, code :: rest⟩) (pushSigned size i) := by
  refine tells_block hcode hi fun raw k => ?_
  dsimp only
  split
  · exact tells_ok _
  · exact tells_error trivial

end

theorem tells_protocol (hi : i.pos = pos + 1) :
    Tells (Locates Cause.OfCode ⟨pos, code :: rest⟩) (protocol pos i) := by
  refine tells_operand takesOff_operandByte hi fun version j _ => ?_
  dsimp only
  split
  · exact tells_error (ReportedAt.code trivial)
  · exact tells_ok _

end

/-- **An opcode that cannot be read** is reported behind its code or its length if bytes are
    missing or no text, and at its code if it is none or asks for too much. -/
theorem tells_operands {pos : Nat} {code : UInt8} {rest : Bytes} {i : Input}
    (hi : i.pos = pos + 1) :
    Tells (Locates Cause.OfCode ⟨pos, code :: rest⟩) (operands pos code i) := by
  have hbyte := takesOff_operandByte
  have hnat := takesOff_operandNat
  unfold operands
  split
  · exact tells_protocol hi
  · refine tells_operand (hnat 8) hi fun size j _ => ?_
    dsimp only
    split
    · exact tells_ok _
    · exact tells_error (ReportedAt.code trivial)
  · exact tells_ok _
  · exact tells_ok _
  · exact tells_ok _
  · exact tells_ok _
  · exact tells_ok _
  · exact tells_ok _
  · exact tells_ok _
  · exact tells_ok _
  · refine tells_operand (takesOff_take 4) hi fun raw j _ => ?_
    dsimp only
    split
    · exact tells_ok _
    · exact tells_error trivial
  · exact tells_operand hbyte hi fun _ _ _ => tells_ok _
  · exact tells_operand (hnat 2) hi fun _ _ _ => tells_ok _
  · exact tells_operand hbyte hi fun _ _ hj => tells_signed (by decide) hj _
  · exact tells_operand (takesOff_take 8) hi fun _ _ _ => tells_ok _
  · exact tells_operand hbyte hi fun _ _ hj => tells_text (by decide) hj
  · exact tells_operand (hnat 4) hi fun _ _ hj => tells_text (by decide) hj
  · exact tells_operand (hnat 8) hi fun _ _ hj => tells_text (by decide) hj
  · exact tells_operand hbyte hi fun _ _ hj => tells_block (by decide) hj fun _ _ => tells_ok _
  · exact tells_operand (hnat 4) hi fun _ _ hj => tells_block (by decide) hj fun _ _ => tells_ok _
  · exact tells_operand (hnat 8) hi fun _ _ hj => tells_block (by decide) hj fun _ _ => tells_ok _
  · exact tells_ok _
  · exact tells_ok _
  · exact tells_ok _
  · exact tells_ok _
  · exact tells_ok _
  · exact tells_ok _
  · exact tells_ok _
  · exact tells_ok _
  · exact tells_ok _
  · exact tells_ok _
  · exact tells_ok _
  · exact tells_ok _
  · exact tells_ok _
  · exact tells_ok _
  · exact tells_operand hbyte hi fun _ _ _ => tells_ok _
  · exact tells_operand (hnat 4) hi fun _ _ _ => tells_ok _
  · exact tells_operand hbyte hi fun _ _ _ => tells_ok _
  · exact tells_operand (hnat 4) hi fun _ _ _ => tells_ok _
  · exact tells_error (ReportedAt.code trivial)

/-- What follows the first byte tells what is wrong. -/
theorem tells_first (next : Input → UInt8 → Reader Opcode) (i : Input)
    (hnext : ∀ pos code rest, Tells (Locates Cause.OfCode ⟨pos, code :: rest⟩)
      (next ⟨pos, code :: rest⟩ code ⟨pos + 1, rest⟩)) :
    Tells (Locates Cause.OfCode i) (do let (code, j) ← operandByte i; next i code j) := by
  obtain ⟨pos, _ | ⟨code, rest⟩⟩ := i
  · exact tells_error ReportedAt.ended
  · exact hnext pos code rest

theorem tells_read (i : Input) : Tells (Locates Cause.OfCode i) (Opcode.read i) := by
  refine tells_first (fun i code => operands i.pos code) i fun pos code rest => ?_
  exact tells_operands rfl

/-- What is wrong with a header is its code or its version, or that it is missing. -/
theorem tells_header (i : Input) : Tells (Locates Cause.OfCode i) (header i) := by
  refine tells_first (fun i code j =>
    if code ≠ protocolCode then .error (.corrupt i.pos .noProtocol) else protocol i.pos j)
    i fun pos code rest => ?_
  dsimp only
  split
  · exact tells_error (ReportedAt.code trivial)
  · exact tells_protocol rfl

/-! ## What opcodes do -/

namespace Machine

variable (m : Machine)

theorem tells_top : Tells Cause.OfStack m.top := by
  unfold top
  split
  · exact tells_error trivial
  · exact tells_error trivial
  · exact tells_ok _

theorem tells_popItem : Tells Cause.OfStack m.popItem := by
  unfold popItem
  split
  · exact tells_error trivial
  · exact tells_ok _
  · exact tells_ok _

theorem tells_pop : Tells Cause.OfStack m.pop := by
  unfold pop
  split
  · exact tells_error trivial
  · exact tells_error trivial
  · exact tells_ok _

theorem tells_popOnto (k : Nat) (above : List Node) :
    Tells Cause.OfStack (m.popOnto k above) := by
  induction k generalizing m above with
  | zero => exact tells_ok _
  | succ k ih => exact m.tells_pop.bind fun found _ => ih found.2 (found.1 :: above)

/-- What is wrong above a mark is what lies there, or that there is no mark. -/
theorem tells_popAbove (height : Nat) (above : List Node) :
    Tells Cause.OfStack (m.popAbove height above) := by
  induction height generalizing m above with
  | zero => exact tells_error trivial
  | succ height ih =>
    unfold popAbove
    split
    · exact tells_error trivial
    · exact tells_ok _
    · exact ih _ _

theorem tells_popToMark : Tells Cause.OfStack m.popToMark := m.tells_popAbove _ _

theorem tells_charge (size : Nat) : Tells Cause.OfStack (m.charge size) := by
  unfold charge
  split
  · exact tells_error trivial
  · exact tells_ok _

theorem tells_lookup (id : Nat) : Tells Cause.OfStack (m.lookup id) := by
  unfold lookup
  split
  · exact tells_error trivial
  · exact tells_ok _
  · split
    · exact tells_ok _
    · exact tells_error trivial

theorem tells_remember (id : Nat) : Tells Cause.OfStack (m.remember id) := by
  unfold remember
  split
  · exact tells_error trivial
  · exact tells_error trivial
  · split
    · exact tells_ok _
    · exact tells_ok _

theorem tells_memoize : Tells Cause.OfStack (m.exec .memoize) := by
  show Tells _ (if m.memo.size < memoIds then m.remember m.memo.size else .error .memoFull)
  split
  · exact m.tells_remember _
  · exact tells_error trivial

theorem tells_dup : Tells Cause.OfStack (m.exec .dup) :=
  m.tells_top.bind fun n _ => (m.tells_charge n.size).bind fun _ _ => tells_ok _

theorem tells_fetch (id : Nat) : Tells Cause.OfStack (m.fetch id) :=
  (m.tells_lookup id).bind fun n _ => (m.tells_charge n.size).bind fun _ _ => tells_ok _

/-- What is wrong with the top, or with a change of it. -/
theorem tells_replaceTop {R : Cause → Prop} (hstack : ∀ cause : Cause, cause.OfStack → R cause)
    {change : Node → Except Cause Node} (h : ∀ n, m.top = .ok n → Tells R (change n)) :
    Tells R (m.replaceTop change) := by
  unfold replaceTop
  unfold top at h
  split
  · exact tells_error (hstack _ trivial)
  · exact tells_error (hstack _ trivial)
  · next n ids hback =>
    rw [hback] at h
    exact (h n rfl).bind fun _ _ => tells_ok _

end Machine

/-- The outcome is no error of operands. -/
abbrev Acts {α : Type} (r : Except Cause α) : Prop := Tells (fun cause => ¬ cause.OfOperand) r

theorem acts_of_stack {α : Type} {r : Except Cause α} (h : Tells Cause.OfStack r) : Acts r :=
  h.mono fun _ hcause => hcause.not_ofOperand

namespace Node

theorem acts_checked (n : Node) : Acts n.checked := by
  unfold checked
  split
  · exact tells_error id
  · exact tells_ok _

theorem acts_append (n : Node) (items : List Node) : Acts (n.append items) := by
  unfold append
  split
  · exact acts_checked _
  · exact tells_error id

/-- Entering keys and values fails for a key that may not be one, and for nothing that lies in the
    operands. -/
theorem acts_enterAll (reversed : List (Value × Value)) (items : List Node) :
    Acts (enterAll reversed items) := by
  induction reversed, items using enterAll.induct with
  | case1 reversed key value rest hkey ih =>
    rw [enterAll, if_pos hkey]
    exact ih
  | case2 reversed key value rest hkey =>
    rw [enterAll, if_neg hkey]
    exact tells_error id
  | case3 reversed rest hrest =>
    rw [enterAll]
    · exact tells_ok _
    · exact hrest

theorem acts_setItems (n : Node) (items : List Node) : Acts (n.setItems items) := by
  unfold setItems
  split
  · exact (acts_enterAll _ _).bind fun _ _ => acts_checked _
  · exact tells_error id

theorem acts_requirePairs (items : List Node) : Acts (requirePairs items) := by
  unfold requirePairs
  split
  · exact tells_error id
  · exact tells_ok _

end Node

namespace Machine

variable (m : Machine)

theorem acts_gather {make : List Node → Except Cause Node} (h : ∀ items, Acts (make items)) :
    Acts (m.gather make) :=
  (acts_of_stack m.tells_popToMark).bind fun found _ => (h found.1).bind fun _ _ => tells_ok _

theorem acts_replaceTop {change : Node → Except Cause Node} (h : ∀ n, Acts (change n)) :
    Acts (m.replaceTop change) :=
  m.tells_replaceTop (fun _ hcause => hcause.not_ofOperand) fun n _ => h n

/-- **What an opcode does not do here** is never a matter of its operands. -/
theorem acts_exec (op : Opcode) : Acts (m.exec op) := by
  have hsequence : ∀ make items, Acts (Node.sequence make items) :=
    fun make items => Node.acts_checked _
  have hmark : Acts m.popToMark := acts_of_stack m.tells_popToMark
  have hpop : ∀ m : Machine, Acts m.pop := fun m => acts_of_stack m.tells_pop
  cases op with
  | protocol | frame | stop | mark | push => exact tells_ok _
  | pop => exact acts_of_stack m.tells_popItem
  | popMark => exact hmark.bind fun _ _ => tells_ok _
  | dup => exact acts_of_stack m.tells_dup
  | tuple => exact m.acts_gather (hsequence _)
  | tupleOf k =>
    refine (acts_of_stack (m.tells_popOnto k [])).bind fun found _ => ?_
    exact (hsequence _ found.1).bind fun _ _ => tells_ok _
  | list => exact m.acts_gather (hsequence _)
  | append => exact (hpop m).bind fun found _ => acts_replaceTop _ fun n => n.acts_append _
  | appends => exact hmark.bind fun found _ => acts_replaceTop _ fun n => n.acts_append _
  | dict =>
    refine m.acts_gather fun items => ?_
    exact (Node.acts_requirePairs items).bind fun _ _ => Node.acts_setItems _ items
  | setItem =>
    refine (hpop m).bind fun value _ => (hpop value.2).bind fun key _ => ?_
    exact acts_replaceTop _ fun n => n.acts_setItems _
  | setItems =>
    refine hmark.bind fun found _ => (Node.acts_requirePairs found.1).bind fun _ _ => ?_
    exact acts_replaceTop _ fun n => n.acts_setItems _
  | memoize => exact acts_of_stack m.tells_memoize
  | put id => exact acts_of_stack (m.tells_remember id)
  | get id => exact acts_of_stack (m.tells_fetch id)

theorem acts_apply (op : Opcode) : Acts (m.apply op) := by
  unfold apply
  split
  · exact (acts_of_stack m.tells_pop).bind fun _ _ => tells_ok _
  · exact (m.acts_exec _).bind fun _ _ => tells_ok _

end Machine

/-- **A step tells where it fails.** -/
theorem tells_step (m : Machine) (i : Input) :
    Tells (Locates (¬ Cause.OfOperand ·) i) (step m i) := by
  cases hread : Opcode.read i with
  | error e =>
    intro e' hstep
    rw [step, hread] at hstep
    obtain rfl := Except.error.inj hstep
    exact (tells_read i _ hread).mono fun _ hcode => hcode.not_ofOperand
  | ok found =>
    obtain ⟨op, j⟩ := found
    rw [step, hread]
    show Tells (Locates _ i) (located i.pos (m.apply op) >>= fun status => .ok (status, j))
    refine Tells.bind ?_ fun _ _ => tells_ok _
    cases happly : m.apply op with
    | ok status => exact tells_ok _
    | error cause =>
      have hcause : ¬ cause.OfOperand := m.acts_apply op cause happly
      obtain ⟨pos, _ | ⟨code, rest⟩⟩ := i
      · nomatch hread
      · exact tells_error (ReportedAt.code hcause)

/-! ## Streams -/

/-- A stream that begins at an input fails, and the second input is where the opcodes that were
    run ended: at once, or when the machine that they led to goes on. -/
inductive Fails (start : Input) : Input → CodecError → Prop
  | header {e : CodecError} : header start = .error e → Fails start start e
  | opcode {past : List Step} {m : Machine} {i : Input} {e : CodecError} :
      Reaches start past m i → step m i = .error e → Fails start i e

/-- Streams stand one behind the other from the beginning of the bytes up to an input. -/
inductive Begins (bytes : Bytes) : Input → Prop
  | first : Begins bytes ⟨0, bytes⟩
  | next {i j : Input} {v : Value} :
      Begins bytes i → stream i.rest.length i = .ok (v, j) → Begins bytes j

section
variable {bytes : Bytes} {start i : Input} {e : CodecError} {steps : Nat}

/-- What was run was taken off the front. -/
theorem Reaches.advances {past : List Step} {m : Machine} (h : Reaches start past m i) :
    start.Advances i := by
  induction h with
  | first hheader => exact advances_of_header hheader
  | next _ _ hstep ih => exact ih.trans (advances_of_step hstep)

theorem Fails.leftOf (h : Fails start i e) (hstart : start.LeftOf bytes) : i.LeftOf bytes := by
  cases h with
  | header => exact hstart
  | opcode hreaches => exact hstart.advances hreaches.advances

theorem Fails.locates (h : Fails start i e) : Locates (¬ Cause.OfOperand ·) i e := by
  cases h with
  | header hheader => exact (tells_header _ _ hheader).mono fun _ hcode => hcode.not_ofOperand
  | opcode _ hstep => exact tells_step _ _ _ hstep

/-- What fails is found to fail at the opcode or behind it, and before the end. -/
theorem Fails.within {offset : Nat} {cause : Cause} (h : Fails start i (.corrupt offset cause)) :
    i.pos ≤ offset ∧ offset ≤ i.endPos := by
  refine ⟨ReportedAt.pos_le h.locates, ?_⟩
  cases h with
  | header hheader =>
    have hplaced : Placed start.endPos 0 [] (Pickle.header start) _ := header_placed rfl
    rw [hheader] at hplaced
    exact hplaced.offset_le
  | @opcode past m i _ _ hstep =>
    have hplaced : Placed i.endPos 0 [] (step m i) _ := step_placed m rfl
    rw [hstep] at hplaced
    exact hplaced.offset_le

theorem Begins.leftOf (h : Begins bytes start) : start.LeftOf bytes := by
  induction h with
  | first => exact ⟨[], rfl, rfl⟩
  | next _ hstream ih => exact ih.advances (advances_of_stream hstream)

/-- **A run that fails comes to an opcode that fails**, as it has steps for all of them. -/
theorem fails_of_run {past : List Step} {m : Machine} (hreaches : Reaches start past m i)
    (hsteps : i.rest.length ≤ steps) (h : run steps m i = .error e) : ∃ j, Fails start j e := by
  induction steps generalizing past m i with
  | zero =>
    -- without steps there are no bytes either, and a step says the same
    obtain ⟨pos, rest⟩ := i
    obtain rfl := List.length_eq_zero_iff.mp (Nat.le_zero.mp hsteps)
    obtain rfl := Except.error.inj h
    exact ⟨_, .opcode hreaches rfl⟩
  | succ steps ih =>
    rw [run] at h
    cases hstep : step m i with
    | error e' =>
      rw [hstep] at h
      obtain rfl := Except.error.inj h
      exact ⟨i, .opcode hreaches hstep⟩
    | ok found =>
      obtain ⟨status, j⟩ := found
      rw [hstep] at h
      cases status with
      | stopped v => cases h
      | running m' =>
        obtain ⟨op, hread, -⟩ := step_eq_ok_iff.mp hstep
        have hlt := (advances_of_step hstep).length_lt
        exact ih (hreaches.next hread hstep) (by omega) h

/-- A stream that fails does so at its header or at an opcode that its run comes to. -/
theorem fails_of_stream (hsteps : i.rest.length ≤ steps) (h : stream steps i = .error e) :
    ∃ j, Fails i j e := by
  rw [stream] at h
  cases hheader : header i with
  | error e' =>
    rw [hheader] at h
    obtain rfl := Except.error.inj h
    exact ⟨i, .header hheader⟩
  | ok found =>
    obtain ⟨op, j⟩ := found
    rw [hheader] at h
    have hlt := (advances_of_header hheader).length_lt
    exact fails_of_run (.first hheader) (by omega) h

/-- When streams are read one after the other and there is an error, one of them begins where those
    before it ended, and fails. -/
theorem fails_of_streams {most : Nat} (hbegins : Begins bytes i) (hsteps : i.rest.length ≤ steps)
    (h : streams steps most i = .error e) : ∃ start j, Begins bytes start ∧ Fails start j e := by
  induction most generalizing i with
  | zero => cases h
  | succ most ih =>
    rw [streams] at h
    split at h
    · cases h
    · cases hstream : stream steps i with
      | error e' =>
        rw [hstream] at h
        obtain rfl := Except.error.inj h
        obtain ⟨j, hfails⟩ := fails_of_stream hsteps hstream
        exact ⟨i, j, hbegins, hfails⟩
      | ok found =>
        obtain ⟨v, j⟩ := found
        have hlt := (advances_of_stream hstream).length_lt
        rw [hstream] at h
        rw [stream_of_le (Nat.le_refl _) hsteps] at hstream
        cases hrest : streams steps most j with
        | error e' =>
          obtain rfl : e' = e := by
            change (streams steps most j >>= _) = _ at h
            rw [hrest] at h
            exact Except.error.inj h
          exact ih (hbegins.next hstream) (by omega) hrest
        | ok vs =>
          change (streams steps most j >>= _) = _ at h
          rw [hrest] at h
          cases h

/-- The bytes are one stream and more. -/
structure GoesOn (bytes : Bytes) (offset : Nat) (cause : Cause) : Prop where
  stream : ∃ v rest, rest ≠ [] ∧ stream bytes.length ⟨0, bytes⟩ = .ok (v, ⟨offset, rest⟩) ∧
    cause = .trailingStream rest.length

/-- **What is not loaded** is one stream and more, or a stream that fails. -/
theorem fails_of_load (h : load bytes = .error e) :
    (∃ offset cause, e = .corrupt offset cause ∧ GoesOn bytes offset cause) ∨
      ∃ i, Fails ⟨0, bytes⟩ i e := by
  rw [load] at h
  cases hstream : stream bytes.length ⟨0, bytes⟩ with
  | error e' =>
    rw [hstream] at h
    obtain rfl := Except.error.inj h
    exact .inr (fails_of_stream (Nat.le_refl _) hstream)
  | ok found =>
    obtain ⟨v, pos, rest⟩ := found
    rw [hstream, except_ok_bind] at h
    dsimp only at h
    split at h
    · nomatch h
    · next hrest =>
      obtain rfl := Except.error.inj h
      have hne : rest ≠ [] := fun hnil => hrest (List.isEmpty_iff.mpr hnil)
      exact .inl ⟨pos, _, rfl, ⟨v, rest, hne, hstream, rfl⟩⟩

/-- A stream in the bytes fails, and this is what is reported of it. -/
structure PointsAt (bytes : Bytes) (start : Input) (offset : Nat) (cause : Cause) (i : Input) :
    Prop where
  /-- All opcodes in front of the input were run. -/
  fails : Fails start i (.corrupt offset cause)
  /-- The input is what the bytes are behind them. -/
  stands : i.LeftOf bytes
  reported : ReportedAt (¬ Cause.OfOperand ·) i.pos i.rest offset cause
  /-- Its position is reported, unless operands are missing or no text. -/
  exact : offset = i.pos ↔ i.rest = [] ∨ ¬ cause.OfOperand

/-- A stream that fails points at the opcode, or behind it at what is missing. -/
theorem Fails.pointsAt {offset : Nat} {cause : Cause} (h : Fails start i (.corrupt offset cause))
    (hstart : start.LeftOf bytes) : PointsAt bytes start offset cause i where
  fails := h
  stands := h.leftOf hstart
  reported := h.locates
  exact := ReportedAt.eq_pos_iff h.locates

/-- **Corruption is reported at the opcode that failed**, where the opcodes before it ended, or
    within its operands if they are missing or no text. -/
theorem corrupt_at_opcode (bytes : Bytes) (offset : Nat) (cause : Cause) :
    (load bytes = .error (.corrupt offset cause) →
      GoesOn bytes offset cause ∨ ∃ i, PointsAt bytes ⟨0, bytes⟩ offset cause i) ∧
    (loadAll bytes = .error (.corrupt offset cause) →
      ∃ start i, Begins bytes start ∧ PointsAt bytes start offset cause i) := by
  constructor
  · intro h
    rcases fails_of_load h with ⟨_, _, heq, hgoes⟩ | ⟨i, hfails⟩
    · obtain ⟨rfl, rfl⟩ := CodecError.corrupt.inj heq
      exact .inl hgoes
    · exact .inr ⟨i, hfails.pointsAt Begins.first.leftOf⟩
  · intro h
    obtain ⟨start, i, hbegins, hfails⟩ := fails_of_streams .first (Nat.le_refl _) h
    exact ⟨start, i, hbegins, hfails.pointsAt hbegins.leftOf⟩

/-- A number, and a stream that asks for an id that it did not store. -/
theorem asking_corrupt_at_opcode :
    let number : Bytes := [0x80, 4, 0x4B, 7, 0x2E]
    let asking : Bytes := [0x80, 4, 0x68, 0, 0x2E]
    load asking = .error (.corrupt 2 (.undefinedMemo 0)) ∧
      (GoesOn asking 2 (.undefinedMemo 0) ∨
        ∃ i, PointsAt asking ⟨0, asking⟩ 2 (.undefinedMemo 0) i) ∧
      loadAll (number ++ asking) = .error (.corrupt 7 (.undefinedMemo 0)) ∧
      ∃ start i, Begins (number ++ asking) start ∧
        PointsAt (number ++ asking) start 7 (.undefinedMemo 0) i :=
  ⟨rfl, (corrupt_at_opcode _ _ _).1 rfl, rfl, (corrupt_at_opcode _ _ _).2 rfl⟩

/-- A text of one byte, which is no text. -/
def garbled : Bytes := [0x80, 4, 0x8C, 1, 0xFF, 0x2E]

/-- The opcode stands at offset 2, and the byte behind its length is reported. -/
theorem garbled_reported_behind :
    ∃ cause past m i, load garbled = .error (.corrupt 4 cause) ∧
      Reaches ⟨0, garbled⟩ past m i ∧ i = ⟨2, [0x8C, 1, 0xFF, 0x2E]⟩ ∧
      step m i = .error (.corrupt 4 cause) ∧ 4 ≠ i.pos := by
  have hreaches : Reaches ⟨0, garbled⟩ [] .start ⟨2, [0x8C, 1, 0xFF, 0x2E]⟩ := .first rfl
  exact ⟨_, [], .start, _, rfl, hreaches, rfl, rfl, by decide⟩

end

end Pickle

end SealedStore
