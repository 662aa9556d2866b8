/-
  Streams one behind the other.

  A stream that is loaded is loaded just so in front of more bytes (`stream_append`), and the
  streams behind it are read as if they stood alone (`streams_shift`): both are what it means to be
  read elsewhere.  What is left is how many steps a run may take: as there is a byte for every
  opcode, more steps than bytes make no difference (`run_succ`).
-/
import SealedStore.Proofs.Pickle.Placement
import SealedStore.Proofs.Pickle.Run

namespace SealedStore

/-- Some bytes of the first input were read, and the second is what is left. -/
def Input.Advances (i j : Input) : Prop :=
  ∃ raw, raw ≠ [] ∧ i.rest = raw ++ j.rest ∧ j.pos = i.pos + raw.length

theorem Input.Advances.trans {i j k : Input} (h : i.Advances j) (h' : j.Advances k) :
    i.Advances k := by
  obtain ⟨raw, hne, hrest, hpos⟩ := h
  obtain ⟨raw', -, hrest', hpos'⟩ := h'
  refine ⟨raw ++ raw', List.append_ne_nil_of_left_ne_nil hne _, ?_, ?_⟩
  · rw [hrest, hrest', List.append_assoc]
  · rw [hpos', hpos, List.length_append, Nat.add_assoc]

/-- Fewer bytes are left behind what was read. -/
theorem Input.Advances.length_lt {i j : Input} (h : i.Advances j) :
    j.rest.length < i.rest.length := by
  obtain ⟨raw, hne, hrest, -⟩ := h
  have hpos := List.length_pos_iff.mpr hne
  rw [hrest, List.length_append]
  omega

theorem Input.Advances.pos_lt {i j : Input} (h : i.Advances j) : i.pos < j.pos := by
  obtain ⟨raw, hne, -, hpos⟩ := h
  have hraw := List.length_pos_iff.mpr hne
  omega

namespace Pickle

open Reader

variable {m : Machine} {v : Value} {i j : Input} {steps : Nat}

/-! ## Bytes that are read -/

theorem advances_of_step {status : Status} (h : step m i = .ok (status, j)) : i.Advances j := by
  obtain ⟨op, hread, -⟩ := step_eq_ok_iff.mp h
  obtain ⟨raw, hspells, hrest, hpos⟩ := read_eq_ok_iff.mp hread
  exact ⟨raw, List.length_pos_iff.mp hspells.length_pos, hrest, hpos⟩

theorem advances_of_run (h : run steps m i = .ok (v, j)) : i.Advances j := by
  induction steps generalizing m i with
  | zero => nomatch h
  | succ steps ih =>
    rcases run_succ_eq_ok_iff.mp h with hstep | ⟨m', k, hstep, hrun⟩
    · exact advances_of_step hstep
    · exact (advances_of_step hstep).trans (ih hrun)

theorem advances_of_header {op : Opcode} (h : header i = .ok (op, j)) : i.Advances j := by
  obtain ⟨version, -, -, hrest, hpos⟩ := header_eq_ok_iff.mp h
  exact ⟨_, List.cons_ne_nil _ _, hrest, hpos⟩

theorem advances_of_stream (h : stream steps i = .ok (v, j)) : i.Advances j := by
  obtain ⟨⟨op, k⟩, hheader, hrun⟩ := except_bind_eq_ok.mp h
  exact (advances_of_header hheader).trans (advances_of_run hrun)

/-! ## Steps to spare -/

/-- **One more step than there are bytes** makes no difference. -/
theorem run_succ (h : i.rest.length ≤ steps) : run (steps + 1) m i = run steps m i := by
  induction steps generalizing m i with
  | zero =>
    obtain ⟨pos, rest⟩ := i
    obtain rfl := List.length_eq_zero_iff.mp (Nat.le_zero.mp h)
    rfl
  | succ steps ih =>
    rw [run, run]
    cases hstep : step m i with
    | error e => rfl
    | ok found =>
      obtain ⟨status, j⟩ := found
      have hlt := (advances_of_step hstep).length_lt
      cases status with
      | stopped v => rfl
      | running m' => exact ih (by omega)

/-- A run with as many steps as bytes does not use more. -/
theorem run_of_le {more : Nat} (h : i.rest.length ≤ steps) (hmore : steps ≤ more) :
    run more m i = run steps m i := by
  induction hmore with
  | refl => rfl
  | step hle ih => rw [run_succ (Nat.le_trans h hle), ih]

/-- With as many steps as bytes, more steps make no difference. -/
theorem stream_of_le {more : Nat} (h : i.rest.length ≤ steps) (hmore : steps ≤ more) :
    stream more i = stream steps i := by
  unfold stream
  cases hheader : header i with
  | error e => rfl
  | ok found =>
    have hlt := (advances_of_header hheader).length_lt
    exact run_of_le (by omega) hmore

/-- Nor does it make a difference for streams, or to allow for more of them. -/
theorem streams_of_le {more most many : Nat} (h : i.rest.length ≤ steps) (hmore : steps ≤ more)
    (hmost : i.rest.length ≤ most) (hmany : most ≤ many) :
    streams more many i = streams steps most i := by
  induction most generalizing i many with
  | zero =>
    have hempty : i.rest.isEmpty = true :=
      List.isEmpty_iff.mpr (List.length_eq_zero_iff.mp (Nat.le_zero.mp hmost))
    cases many with
    | zero => rfl
    | succ many => exact if_pos hempty
  | succ most ih =>
    obtain ⟨many, rfl⟩ : ∃ n, many = n + 1 := ⟨many - 1, by omega⟩
    rw [streams, streams, stream_of_le h hmore]
    split
    · rfl
    · cases hstream : stream steps i with
      | error e => rfl
      | ok found =>
        have hlt := (advances_of_stream hstream).length_lt
        show (streams more many found.2 >>= _) = (streams steps most found.2 >>= _)
        rw [ih (by omega) (by omega) (by omega)]

/-! ## One behind the other -/

/-- **A stream in front of more bytes** gives the same value and leaves them. -/
theorem stream_append (h : stream steps i = .ok (v, j)) (extra : Bytes) :
    stream steps ⟨i.pos, i.rest ++ extra⟩ = .ok (v, ⟨j.pos, j.rest ++ extra⟩) := by
  have hplaced : Placed i.endPos 0 extra (stream steps i) (stream steps (i.placed 0 extra)) :=
    stream_placed steps rfl
  rw [h] at hplaced
  exact hplaced.eq_ok

/-- What is loaded is a stream up to the end. -/
theorem stream_of_load {bytes : Bytes} (h : load bytes = .ok v) :
    stream bytes.length ⟨0, bytes⟩ = .ok (v, ⟨bytes.length, []⟩) := by
  obtain ⟨⟨w, pos, rest⟩, hstream, h⟩ := except_bind_eq_ok.mp h
  obtain ⟨raw, -, hrest, hpos⟩ := advances_of_stream hstream
  dsimp only at h hrest hpos
  split at h
  · next hempty =>
    obtain rfl := Except.ok.inj h
    obtain rfl : rest = [] := List.isEmpty_iff.mp hempty
    rw [List.append_nil] at hrest
    rw [hstream, hpos, hrest, Nat.zero_add]
  · nomatch h

/-- A stream that is loaded leaves what is behind it. -/
theorem stream_of_load_append {d : Bytes} (h : load d = .ok v) (e : Bytes) :
    stream (d ++ e).length ⟨0, d ++ e⟩ = .ok (v, ⟨d.length, e⟩) := by
  have hsteps : d.length ≤ (d ++ e).length := by
    rw [List.length_append]
    exact Nat.le_add_right _ _
  have hstream : stream (d ++ e).length ⟨0, d⟩ = .ok (v, ⟨d.length, []⟩) := by
    rw [stream_of_le (Nat.le_refl _) hsteps, stream_of_load h]
  exact stream_append hstream e

/-- **The streams behind one that is loaded** are read as if they stood alone. -/
theorem loadAll_append {d : Bytes} (h : load d = .ok v) (e : Bytes) :
    loadAll (d ++ e) = (match loadAll e with
      | .ok vs => .ok (v :: vs)
      | .error err => .error (err.shift d.length)) := by
  have hstream := stream_of_load_append h e
  obtain ⟨raw, hne, hrest, -⟩ := advances_of_stream hstream
  have hpos : 0 < d.length := by
    rw [List.append_cancel_right hrest]
    exact List.length_pos_iff.mpr hne
  have hlen : (d ++ e).length = d.length + e.length := List.length_append
  -- the first stream is taken off, and steps and streams are left to spare
  obtain ⟨most, hmost⟩ : ∃ most, (d ++ e).length = most + 1 := ⟨(d ++ e).length - 1, by omega⟩
  have hempty : ¬ (d ++ e).isEmpty = true := by
    rw [List.isEmpty_iff_length_eq_zero]
    omega
  have hothers : streams (d ++ e).length most ⟨d.length, e⟩ =
      (loadAll e).mapError (·.shift d.length) := by
    have hshift : (⟨d.length, e⟩ : Input) = Input.shift d.length ⟨0, e⟩ := by
      rw [Input.shift, Nat.zero_add]
    have hsteps : e.length ≤ (d ++ e).length := by omega
    rw [hshift, streams_shift]
    exact congrArg _ (streams_of_le (Nat.le_refl _) hsteps (Nat.le_refl _) (by omega))
  calc loadAll (d ++ e) = streams (d ++ e).length (most + 1) ⟨0, d ++ e⟩ := by rw [loadAll, hmost]
    _ = (stream (d ++ e).length ⟨0, d ++ e⟩ >>= fun r => do
          let vs ← streams (d ++ e).length most r.2
          .ok (r.1 :: vs)) := if_neg hempty
    _ = (streams (d ++ e).length most ⟨d.length, e⟩ >>= fun vs => .ok (v :: vs)) := by
          rw [hstream]
          rfl
    _ = ((loadAll e).mapError (·.shift d.length) >>= fun vs => .ok (v :: vs)) := by rw [hothers]
    _ = _ := by cases loadAll e <;> rfl

/-- One stream is not two. -/
theorem load_append {d e : Bytes} (h : load d = .ok v) (he : e ≠ []) :
    load (d ++ e) = .error (.corrupt d.length (.trailingStream e.length)) := by
  unfold load
  rw [stream_of_load_append h e, except_ok_bind]
  exact if_neg fun hempty => he (List.isEmpty_iff.mp hempty)

/-- Streams behind each other give their values in order. -/
theorem loadAll_flatten {ds : List Bytes} {vs : List Value}
    (h : List.Forall₂ (fun d v => load d = .ok v) ds vs) : loadAll ds.flatten = .ok vs := by
  induction h with
  | nil => rfl
  | cons hd _ ih => rw [List.flatten_cons, loadAll_append hd, ih]

/-- **Streams one behind the other are read one by one**, each as if it stood alone. -/
theorem streams_read_apart :
    (∀ (d e : Bytes) (v : Value), load d = .ok v →
      (∀ vs, loadAll e = .ok vs → loadAll (d ++ e) = .ok (v :: vs)) ∧
      (∀ err, loadAll e = .error err → loadAll (d ++ e) = .error (err.shift d.length)) ∧
      (e ≠ [] → load (d ++ e) = .error (.corrupt d.length (.trailingStream e.length)))) ∧
    ∀ (ds : List Bytes) (vs : List Value), List.Forall₂ (fun d v => load d = .ok v) ds vs →
      loadAll ds.flatten = .ok vs := by
  refine ⟨fun d e v h => ⟨fun vs hvs => ?_, fun err herr => ?_, load_append h⟩,
    fun ds vs => loadAll_flatten⟩
  · rw [loadAll_append h, hvs]
  · rw [loadAll_append h, herr]

/-- A number that is remembered, and a stream that asks for it. -/
theorem number_read_apart :
    let number : Bytes := [0x80, 4, 0x4B, 7, 0x94, 0x2E]
    let asking : Bytes := [0x80, 4, 0x68, 0, 0x2E]
    loadAll (number ++ number) = .ok [.int 7, .int 7] ∧
      loadAll (number ++ asking) = .error (.corrupt 8 (.undefinedMemo 0)) ∧
      load (number ++ asking) = .error (.corrupt 6 (.trailingStream 5)) ∧
      loadAll [number, number, number].flatten = .ok [.int 7, .int 7, .int 7] := by
  intro number asking
  have hload : load number = .ok (.int 7) := rfl
  obtain ⟨hvalues, -, -⟩ := streams_read_apart.1 number number (.int 7) hload
  obtain ⟨-, herror, hone⟩ := streams_read_apart.1 number asking (.int 7) hload
  refine ⟨hvalues _ rfl, herror _ rfl, hone nofun, streams_read_apart.2 _ _ ?_⟩
  exact .cons hload (.cons hload (.cons hload .nil))

end Pickle

end SealedStore
