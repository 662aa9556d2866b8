/-
  Runs, one opcode at a time.

  A run that gives a value reads an opcode, does what it says and goes on, up to the `stop` that
  takes the value off the stack.  Each of these is said once here, of the reader and the machine
  together, for what holds of all runs and for runs that are put together from parts.
-/
import SealedStore.Proofs.Pickle.Machine
import SealedStore.Proofs.Pickle.Opcodes

namespace SealedStore.Pickle

open Reader

variable {m m' : Machine} {v : Value} {i j : Input}

/-! ## One opcode -/

/-- A machine is stopped by `stop`, with the value that lies uppermost. -/
theorem apply_stopped_iff {op : Opcode} :
    m.apply op = .ok (.stopped v) ↔ op = .stop ∧ ∃ n m', m.pop = .ok (n, m') ∧ v = n.value := by
  constructor
  · intro h
    unfold Machine.apply at h
    split at h
    · obtain ⟨⟨n, m'⟩, hpop, h⟩ := except_bind_eq_ok.mp h
      exact ⟨rfl, n, m', hpop, (Status.stopped.inj (Except.ok.inj h)).symm⟩
    · obtain ⟨m', -, h⟩ := except_bind_eq_ok.mp h
      nomatch Except.ok.inj h
  · rintro ⟨rfl, n, m', hpop, rfl⟩
    exact except_bind_eq_ok.mpr ⟨(n, m'), hpop, rfl⟩

/-- A machine goes on after any other opcode that it executes. -/
theorem apply_running_iff {op : Opcode} :
    m.apply op = .ok (.running m') ↔ op ≠ .stop ∧ m.exec op = .ok m' := by
  unfold Machine.apply
  split
  · constructor
    · intro h
      obtain ⟨⟨n, m'⟩, hpop, h⟩ := except_bind_eq_ok.mp h
      nomatch Except.ok.inj h
    · rintro ⟨hne, -⟩
      exact absurd rfl hne
  · next hne =>
    rw [except_bind_eq_ok]
    constructor
    · rintro ⟨m₁, hexec, h⟩
      obtain rfl := Status.running.inj (Except.ok.inj h)
      exact ⟨fun heq => hne heq, hexec⟩
    · rintro ⟨-, hexec⟩
      exact ⟨m', hexec, rfl⟩

theorem located_eq_ok_iff {α : Type} {pos : Nat} {r : Except Cause α} {x : α} :
    located pos r = .ok x ↔ r = .ok x := by
  cases r with
  | error cause =>
    constructor
    · intro h; nomatch h
    · intro h; nomatch h
  | ok y =>
    rw [located, Except.ok.injEq, Except.ok.injEq]

/-- A step reads an opcode and does what it says. -/
theorem step_eq_ok_iff {status : Status} :
    step m i = .ok (status, j) ↔ ∃ op, Opcode.read i = .ok (op, j) ∧ m.apply op = .ok status := by
  unfold step
  rw [except_bind_eq_ok]
  constructor
  · rintro ⟨⟨op, k⟩, hread, h⟩
    obtain ⟨status', happly, h⟩ := except_bind_eq_ok.mp h
    obtain ⟨rfl, rfl⟩ := Prod.mk.inj (Except.ok.inj h)
    exact ⟨op, hread, located_eq_ok_iff.mp happly⟩
  · rintro ⟨op, hread, happly⟩
    exact ⟨(op, j), hread, except_bind_eq_ok.mpr ⟨status, located_eq_ok_iff.mpr happly, rfl⟩⟩

/-! ## Opcodes in a row -/

/-- A machine goes through opcodes, none of which stops it, and becomes another. -/
inductive Runs : List Opcode → Machine → Machine → Prop
  | nil (m : Machine) : Runs [] m m
  | cons {m m' m'' op ops} :
      op ≠ .stop → m.exec op = .ok m' → Runs ops m' m'' → Runs (op :: ops) m m''

theorem Runs.single {op : Opcode} (hop : op ≠ .stop) (hexec : m.exec op = .ok m') :
    Runs [op] m m' :=
  .cons hop hexec (.nil m')

/-- A run goes on with another. -/
theorem Runs.append {m'' : Machine} {ops ops' : List Opcode} (h : Runs ops m m')
    (h' : Runs ops' m' m'') : Runs (ops ++ ops') m m'' := by
  induction h with
  | nil => exact h'
  | cons hop hexec _ ih => exact .cons hop hexec (ih h')

/-! ## Runs -/

/-- **A run stops at its next opcode or goes on after it.** -/
theorem run_succ_eq_ok_iff {steps : Nat} :
    run (steps + 1) m i = .ok (v, j) ↔
      step m i = .ok (.stopped v, j) ∨
        ∃ m' k, step m i = .ok (.running m', k) ∧ run steps m' k = .ok (v, j) := by
  rw [run, except_bind_eq_ok]
  constructor
  · rintro ⟨⟨status, k⟩, hstep, h⟩
    cases status with
    | stopped w =>
      obtain ⟨rfl, rfl⟩ := Prod.mk.inj (Except.ok.inj h)
      exact .inl hstep
    | running m' => exact .inr ⟨m', k, hstep, h⟩
  · rintro (hstep | ⟨m', k, hstep, h⟩)
    · exact ⟨_, hstep, rfl⟩
    · exact ⟨_, hstep, h⟩

/-- The header of a stream is the code of a protocol and its version. -/
theorem header_eq_ok_iff {op : Opcode} :
    header i = .ok (op, j) ↔ ∃ version, op = .protocol ∧ version ≤ highestProtocol ∧
      i.rest = [protocolCode, version] ++ j.rest ∧ j.pos = i.pos + 2 := by
  have hcode : ∀ i : Input, Recognises (fun j => protocol i.pos j) _ :=
    fun i => recognises_protocol i.pos
  have hboth := (recognises_byte .endWithoutStop).bind fun (i : Input) code =>
    recognises_unless (c := code ≠ protocolCode) (fun _ => hcode i) (.corrupt i.pos .noProtocol)
  refine (hboth i op j).trans ⟨?_, ?_⟩
  · rintro ⟨_, ⟨code, _, _, rfl, rfl, hcode, version, rfl, hknown, rfl⟩, hrest, hpos⟩
    obtain rfl := Decidable.not_not.mp hcode
    exact ⟨version, rfl, hknown, hrest, hpos⟩
  · rintro ⟨version, rfl, hknown, hrest, hpos⟩
    exact ⟨[protocolCode, version], ⟨protocolCode, [protocolCode], [version], rfl, rfl,
      not_not_intro rfl, version, rfl, hknown, rfl⟩, hrest, hpos⟩

/-- **A stream is loaded** when its bytes are a header and a run up to their end. -/
theorem load_eq_ok_iff {bytes : Bytes} :
    load bytes = .ok v ↔ ∃ version rest pos, version ≤ highestProtocol ∧
      bytes = protocolCode :: version :: rest ∧
        run bytes.length .start ⟨2, rest⟩ = .ok (v, ⟨pos, []⟩) := by
  unfold load stream
  rw [except_bind_eq_ok]
  constructor
  · rintro ⟨⟨w, i⟩, hstream, h⟩
    obtain ⟨⟨op, j⟩, hheader, hrun⟩ := except_bind_eq_ok.mp hstream
    obtain ⟨version, rfl, hknown, hrest, hpos⟩ := header_eq_ok_iff.mp hheader
    dsimp only at h hrun hpos
    split at h
    · next hempty =>
      obtain rfl := Except.ok.inj h
      obtain ⟨pos, rest⟩ := i
      obtain ⟨pos', rest'⟩ := j
      obtain rfl : rest = [] := List.isEmpty_iff.mp hempty
      obtain rfl : pos' = 2 := hpos
      exact ⟨version, rest', pos, hknown, hrest, hrun⟩
    · nomatch h
  · rintro ⟨version, rest, pos, hknown, rfl, hrun⟩
    refine ⟨(v, ⟨pos, []⟩), except_bind_eq_ok.mpr ⟨(.protocol, ⟨2, rest⟩), ?_, hrun⟩, rfl⟩
    exact header_eq_ok_iff.mpr ⟨version, rfl, hknown, rfl, rfl⟩

end SealedStore.Pickle
