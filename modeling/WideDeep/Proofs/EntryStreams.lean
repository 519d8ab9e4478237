import Mathlib.Tactic
import WideDeep.Bytes.Entry
import WideDeep.Proofs.Fields

/-!
# Streams of entries

What has been written into a stream, entry by entry, is read back from it with nothing known but the
kinds of the entries: each reader takes the bytes of its entry and no more. So no stream goes on as
another stream of entries of the same kinds.
-/

namespace WideDeep.Proofs
open Binary

section Entries

/-- Singles are read back as they were rounded into their array, if there is such an array. -/
theorem decodes_singles (xs : List (Stored Float)) : Decodes [(Entry.singles xs).field]
    (Reader.singles xs.length) (xs.map fun x => narrow x.value) := by
  by_cases hroom : xs.length * 4 < 0x8000000000000000
  · have hfield : (Entry.singles xs).field = .singles (xs.map Stored.narrow) := if_pos hroom
    have hlength : (xs.map Stored.narrow).length = xs.length := List.length_map _
    have hread : Decodes [.singles (xs.map Stored.narrow)] (Reader.singles xs.length)
        ((xs.map Stored.narrow).map fun x => x.value) :=
      Decodes.singles (by rw [hlength]) (by rwa [hlength])
    rw [List.map_map] at hread
    rw [hfield]
    exact hread
  · have hfield : (Entry.singles xs).field = .refused .invalidValue := if_neg hroom
    rw [hfield]
    exact Decodes.refused _ _ _

/-- An entry is read back as its value. -/
theorem decodes_entry (e : Entry) : Decodes [e.field] e.request.read e.value := by
  cases e with
  | int n => exact (Decodes.int n).last ReadValue.int
  | bool d => exact (Decodes.bool _).last ReadValue.bool
  | single x => exact (Decodes.single x).last ReadValue.single
  | double x => exact (Decodes.double x).last ReadValue.double
  | text s => exact (Decodes.text s).last ReadValue.text
  | singles xs => exact (decodes_singles xs).last ReadValue.singles
  | doubles xs => exact (Decodes.doubles xs).last ReadValue.doubles
  | ints ns => exact (Decodes.ints ns).last ReadValue.ints

/-- Entries in sequence are read back as their values in sequence. -/
theorem decodes_entries (es : List Entry) :
    Decodes (es.map Entry.field) (Request.readAll (es.map Entry.request)) (es.map Entry.value) := by
  induction es with
  | nil => exact Decodes.pure []
  | cons e es ih => exact (decodes_entry e).cons (ih.last _)

end Entries

/-- Entries that could be written are read back in order, whatever stands behind their bytes, and just
these bytes are taken. If other entries of the same kinds are written as bytes that begin with these,
nothing follows, and they have the same values. -/
theorem entries_read_back {es : List Entry} {bytes : Bytes} (h : Entry.writeAll es = .ok bytes) :
    (∀ rest, Reader.runOn (Request.readAll (es.map Entry.request)) (bytes ++ rest) =
      (.ok (es.map Entry.value), rest)) ∧
    ∀ (others : List Entry) (more : Bytes), others.map Entry.request = es.map Entry.request →
      Entry.writeAll others = .ok (bytes ++ more) →
      more = [] ∧ others.map Entry.value = es.map Entry.value := by
  have hback := (decodes_entries es bytes h).whole
  refine ⟨hback, fun others more hkinds hothers => ?_⟩
  -- the same readers read both outputs from the same bytes, so there is one result
  have hother := (decodes_entries others _ hothers).whole []
  rw [List.append_nil, hkinds, hback more] at hother
  obtain ⟨hvalues, hmore⟩ := Prod.mk.inj hother
  exact ⟨hmore, (Except.ok.inj hvalues).symm⟩

/-- An entry of each kind: a number below zero, a text that counts as true, no text at all, a text whose
bytes are more than its characters, not-a-numbers with a sign, and singles that are rounded. -/
def mixedEntries : List Entry :=
  [.int (-2), .bool (.text "no"), .text none, .text (some "é"), .single ⟨nan, true⟩, .single (.plain 0.1),
    .double (.plain (-0.0)), .singles [.plain 1e300, .plain 16777217], .doubles [⟨nan, true⟩],
    .ints [-1, 258]]

def mixedBytes : Bytes :=
  [255, 255, 255, 254] ++ [1] ++ [0, 0] ++ [0, 2, 195, 169] ++ [255, 192, 0, 0] ++
    [61, 204, 204, 205] ++ [128, 0, 0, 0, 0, 0, 0, 0] ++ [127, 128, 0, 0, 75, 128, 0, 0] ++
    [0, 0, 0, 1, 255, 248, 0, 0, 0, 0, 0, 0] ++
    [0, 0, 0, 2, 255, 255, 255, 255, 0, 0, 1, 2]

theorem entries_read_back_mixed : Entry.writeAll mixedEntries = .ok mixedBytes ∧
    Reader.runOn (Request.readAll (mixedEntries.map Entry.request)) (mixedBytes ++ [7]) =
      (.ok (mixedEntries.map Entry.value), [7]) := by
  have hwrite : Entry.writeAll mixedEntries = .ok mixedBytes := by decide +kernel
  exact ⟨hwrite, (entries_read_back hwrite).1 [7]⟩

end WideDeep.Proofs
