import Fonds.Projection.Reader
import Fonds.Proofs.RoundTrip.Shape

/-! Projections come out of their documents as they went in, with their fields in order. -/
namespace Fonds

namespace FieldProjection

/-- Flags are written as numbers and slices as objects, so none is taken for another. -/
theorem read_toJson (p : FieldProjection) : read p.toJson = .ok p := by
  cases p with
  | excluded => rfl
  | included => rfl
  | count n =>
    have hwhole : (Number.integer n.toInt).toInt64? = some n := by
      rw [Number.toInt64?, if_pos ⟨n.minValue_le_toInt, n.toInt_le⟩, Int64.ofInt_toInt]
    rw [toJson, Json.single, read, if_pos rfl, Json.ofInt, readSlice, hwhole]
  | window skip limit positive =>
    have hskip : (Json.ofInt skip.toInt).expectInt64 Keyword.slice = .ok skip :=
      Json.expectInt64_toInt skip
    have hlimit : (Json.ofInt limit.toInt).expectInt64 Keyword.slice = .ok limit :=
      Json.expectInt64_toInt limit
    rw [toJson, Json.single, read, if_pos rfl, readSlice, hskip, ok_bind, hlimit, ok_bind, slice,
      dif_pos positive]

end FieldProjection

namespace Projection

theorem readField_entries (p : Projection) (fields : OrderedMap Name FieldProjection) :
    (fields.entries.map fun e => (e.1.text, e.2.toJson)).foldlM readField
      { p with fields := .empty } = .ok { p with fields } := by
  refine fields.foldlM_entries (fun fields => { p with fields }) fun known e _ => ?_
  simp only [readField, FieldProjection.read_toJson, ok_bind, addField, Name.build_text]

/-- A projection is read back from its document. -/
theorem read_toJson (p : Projection) : read p.toJson = .ok p := by
  obtain ⟨fields, usage⟩ := p
  have hfields : (if fields.isEmpty then [] else [(Keyword.fields,
      Json.ofEntries (fields.entries.map fun e => (e.1.text, e.2.toJson)))]).foldlM readEntry {} =
        .ok { fields } := by
    by_cases hempty : fields.isEmpty
    · rw [if_pos hempty, OrderedMap.eq_empty_of_isEmpty hempty]
      rfl
    · have hentries := Json.ofEntries_map Name.text_injective fields.nodup FieldProjection.toJson
      have hread := readField_entries {} fields
      rw [if_neg hempty, hentries, List.foldlM_cons, readEntry, if_pos rfl,
        Json.expectObject_object, ok_bind, hread, ok_bind]
      rfl
  rw [read, toJson, Json.expectObject_object, ok_bind, List.foldlM_append, hfields, ok_bind]
  cases usage <;> rfl

end Projection

end Fonds
