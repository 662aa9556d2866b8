/-
  What a pickle stream gives can be stored.

  The limit of nesting is the same for the reader of streams and the writer of payloads, and plain
  data has keys where the writer wants them.  It holds no records, so a payload of it is read back.
-/
import SealedStore.Proofs.Codec.RoundTrip
import SealedStore.Proofs.Pickle.Soundness

namespace SealedStore.Pickle

open Payload (Addressable extents)

/-! ## Plain data -/

theorem fieldsNamed_of_plain {v : Value} (h : v.Plain) : v.FieldsNamed := by
  cases v with
  | record cls fields => exact absurd rfl h.1
  | _ => trivial

/-- Plain data with short texts and not too many values has lengths and counts of 64 bits. -/
theorem addressable_of_modest {limit : Nat} {v : Value} (h : Modest limit v)
    (hlimit : limit < 2 ^ 64) (hnodes : v.nodes.length < 2 ^ 64) : v.Everywhere Addressable := by
  induction v using Value.byMembers with
  | step v ih =>
    obtain ⟨hplain, htext⟩ := h.self
    rw [Value.length_nodes] at hnodes
    -- every count is one of members, of which each is a value
    have hcount := Value.length_le_weight v.members
    refine Value.everywhere_iff.mpr ⟨fun n hn => ?_, fun w hw => ?_⟩
    · cases v with
      | str s =>
        obtain rfl := List.mem_singleton.mp hn
        exact Nat.lt_of_le_of_lt htext hlimit
      | bytes b =>
        obtain rfl := List.mem_singleton.mp hn
        exact Nat.lt_of_le_of_lt htext hlimit
      | tuple items =>
        obtain rfl := List.mem_singleton.mp hn
        exact Nat.lt_of_le_of_lt hcount (by omega)
      | list items =>
        obtain rfl := List.mem_singleton.mp hn
        exact Nat.lt_of_le_of_lt hcount (by omega)
      | dict entries =>
        obtain rfl := List.mem_singleton.mp hn
        rw [Value.length_members_dict] at hcount
        omega
      | record cls fields => exact absurd rfl hplain.1
      | _ => nomatch hn
    · have hle := Value.length_nodes_le_weight hw
      exact ih w hw (h.member hw) (by omega)

/-! ## From a stream to a payload -/

/-- **What a stream gives can be stored.**  It is plain data of limited level and size; it has a
    payload, and the value is read back from it if the stream is no longer than memory allows. -/
theorem loaded_values_storable {bytes : Bytes} {v : Value} (h : load bytes = .ok v) :
    v.Everywhere Value.Plain ∧ v.level ≤ maxDepth ∧ v.nodes.length ≤ bytes.length + maxShared ∧
      ∃ b, Payload.encode v = .ok b ∧ (bytes.length < 2 ^ 63 →
        ∃ w, Payload.decode b = .ok w ∧ w.sameAs v = true) := by
  obtain ⟨n, rfl, hsound, hsize⟩ := sound_of_load h
  have hplain : n.value.Everywhere Value.Plain := hsound.modest.imp fun _ hw => hw.1
  have hlevel : n.value.level ≤ maxDepth := Nat.le_trans hsound.level hsound.depth
  have hnodes : n.value.nodes.length ≤ bytes.length + maxShared :=
    Nat.le_trans hsound.nodes hsize
  have hkeys : n.value.Everywhere Value.KeysHashable := hplain.imp fun _ hw => hw.2.1
  obtain ⟨b, hb⟩ := Payload.exists_encodeAt_iff.mpr ⟨by rwa [Nat.zero_add], hkeys⟩
  refine ⟨hplain, hlevel, hnodes, b, hb, fun hlen => ⟨n.value, ?_, ?_⟩⟩
  · have hshared : maxShared < 2 ^ 63 := by decide
    have haddr := addressable_of_modest hsound.modest (by omega) (by omega)
    exact Payload.decode_encode hb haddr (hplain.imp fun _ => fieldsNamed_of_plain)
  · exact (Value.sameAs_iff_eq _ _).mpr rfl

/-- A dictionary with one list under two keys, which is stored empty and then filled. -/
def twice : Bytes :=
  [0x80, 4, 0x7D, 0x4B, 1, 0x5D, 0x94, 0x4B, 2, 0x61, 0x73, 0x4B, 3, 0x68, 0, 0x73, 0x2E]

/-- The list is loaded with its item under both keys, and the dictionary can be stored. -/
theorem twice_storable :
    ∃ v, load twice = .ok v ∧ v = .dict [(.int 1, .list [.int 2]), (.int 3, .list [.int 2])] ∧
      v.level ≤ maxDepth ∧ ∃ b, Payload.encode v = .ok b ∧
        ∃ w, Payload.decode b = .ok w ∧ w.sameAs v = true := by
  have hload : load twice =
      .ok (.dict [(.int 1, .list [.int 2]), (.int 3, .list [.int 2])]) := rfl
  obtain ⟨-, hlevel, -, b, hb, hback⟩ := loaded_values_storable hload
  exact ⟨_, hload, rfl, hlevel, b, hb, hback (by decide)⟩

end SealedStore.Pickle
