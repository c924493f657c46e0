import Dataflow.Proofs.Unit.Plan
import Dataflow.Unit.Compiled

/-!
# Values in records

Supplied values of the designated types fill the input record, where each designated port
finds the first value supplied for it, and a record filled with the words of the requested
outputs is read back as their values.
-/

namespace Dataflow

open Ir

/-- A scalar of a type's native image stands for a value of the type. -/
theorem Value.exists_ofWord? {ty : DataType} {native : Ty} (hty : ty.native = some native)
    {w : Word} (hw : w.IsScalar native) : ∃ v, Value.ofWord? ty w = some v := by
  cases ty with
  | handle => contradiction
  | _ =>
      cases hty
      obtain ⟨x, rfl⟩ := hw.cases
      exact ⟨_, rfl⟩

/-- The first value that is supplied for a port stands at the port's first position. -/
theorem lookup_zip_of_findIdx? {ports : List PortRef} {values : List Value} {port : PortRef}
    {k : Nat} {v : Value} (hk : ports.findIdx? (· == port) = some k)
    (hv : values[k]? = some v) : (ports.zip values).lookup port = some v := by
  induction ports generalizing values k with
  | nil => contradiction
  | cons first ports ih =>
      cases values with
      | nil => simp at hv
      | cons value values =>
          rw [List.findIdx?_cons] at hk
          rw [List.zip_cons_cons, List.lookup_cons]
          by_cases hport : first = port
          · subst hport
            rw [if_pos (by simp)] at hk
            cases hk
            simpa using hv
          · have hne : (first == port) = false := by simpa using hport
            have hne' : (port == first) = false := by simpa using Ne.symm hport
            rw [hne] at hk
            obtain ⟨j, hj, rfl⟩ := Option.map_eq_some_iff.1 hk
            rw [hne']
            exact ih hj hv

namespace CompiledUnit

variable {layout : RecordLayout} {values : List Value}

theorem writeInputs_eq_fill {record : Bytes} {field : Nat} {ports : List PortRef}
    (hports : ports.length = values.length)
    (htypes : values.map Value.dataType = (layout.fields.drop field).map Field.dataType) :
    writeInputs layout record field values ports =
      .ok (layout.fill record field (values.map Value.toBytes)) := by
  induction values generalizing record field ports with
  | nil =>
      unfold writeInputs
      rfl
  | cons v values ih =>
      cases ports with
      | nil => contradiction
      | cons port ports =>
          cases hfields : layout.fields.drop field with
          | nil =>
              rw [hfields] at htypes
              contradiction
          | cons f fs =>
              rw [hfields, List.map_cons, List.map_cons, List.cons.injEq] at htypes
              have hfield : layout.fields[field]? = some f := by
                rw [← List.head?_drop, hfields]
                rfl
              have hrest : layout.fields.drop (field + 1) = fs := by
                rw [← List.tail_drop, hfields]
                rfl
              unfold writeInputs
              rw [if_pos (by rw [RecordLayout.dataType?, hfield, htypes.1]; rfl),
                ih (by simpa using hports) (by rw [hrest]; exact htypes.2)]
              rw [List.map_cons, RecordLayout.fill, RecordLayout.write,
                RecordLayout.offset?, hfield]
              rfl

/-- Values are only written to fields of their types. -/
theorem dataType?_of_writeInputs {record record' : Bytes} {field : Nat} {ports : List PortRef}
    (h : writeInputs layout record field values ports = .ok record')
    (hports : ports.length = values.length) {k : Nat} {v : Value} (hv : values[k]? = some v) :
    layout.dataType? (field + k) = some v.dataType := by
  induction values generalizing record field ports k with
  | nil => simp at hv
  | cons first values ih =>
      cases ports with
      | nil => contradiction
      | cons port ports =>
          unfold writeInputs at h
          split at h
          · rename_i hfirst
            cases k with
            | zero =>
                cases hv
                exact hfirst
            | succ k =>
                have hrest := ih h (by simpa using hports) hv
                rwa [Nat.add_assoc, Nat.add_comm 1] at hrest
          · contradiction

theorem fits_of_types (htypes : values.map Value.dataType = layout.fields.map Field.dataType) :
    layout.Fits 0 (values.map Value.toBytes) := by
  unfold RecordLayout.Fits
  rw [List.drop_zero, List.forall₂_map_left_iff]
  refine (forall₂_of_map_eq htypes).imp fun v f hty => ?_
  rw [Field.width, ← hty, v.length_toBytes]
  rfl

end CompiledUnit

namespace UnitPlan.Serves

variable {plan : UnitPlan} {g : Graph} {r : UnitRequest} {values : List Value}

theorem values_types (hplan : plan.Serves g r)
    (hvalues : List.Forall₂ (fun port v => g.HasOutput port v.dataType) r.graphInputs values) :
    values.map Value.dataType = plan.inputLayout.fields.map Field.dataType := by
  rw [(RecordLayout.ofTypes_eq_ok hplan.inputLayout).2]
  have hlists := hplan.bindings
  unfold Bindings.Lists at hlists
  generalize plan.bindings.ports = typed at hlists
  generalize r.graphInputs = ports at hvalues hlists
  induction hvalues generalizing typed with
  | nil =>
      cases hlists
      rfl
  | cons hv _ ih =>
      cases hlists with
      | cons hfirst hrest => rw [List.map_cons, List.map_cons, ih _ hrest, hv.unique hfirst.2]

/-- Values of the fields' types are of the types of the designated outputs. -/
theorem supplied_of_types (hplan : plan.Serves g r)
    (htypes : values.map Value.dataType = plan.inputLayout.fields.map Field.dataType) :
    List.Forall₂ (fun port v => g.HasOutput port v.dataType) r.graphInputs values := by
  rw [(RecordLayout.ofTypes_eq_ok hplan.inputLayout).2] at htypes
  have hlists := hplan.bindings
  unfold Bindings.Lists at hlists
  refine forall₂_trans hlists.flip (forall₂_of_map_eq htypes.symm) ?_
  rintro typed port v ⟨-, houtput⟩ hty
  exact hty ▸ houtput

/-- The input record that the supplied values fill. -/
def inputRecord (plan : UnitPlan) (values : List Value) : Bytes :=
  plan.inputLayout.fill plan.inputLayout.allocate 0 (values.map Value.toBytes)

/-- A designated port's field holds the first value supplied for the port. -/
theorem exists_supplied (hplan : plan.Serves g r)
    (hvalues : List.Forall₂ (fun port v => g.HasOutput port v.dataType) r.graphInputs values)
    {port : PortRef} {slot offset : Nat} (hslot : plan.bindings.slot? port = some slot)
    (hoffset : plan.inputLayout.offset? slot = some offset) {ty : DataType} {native : Ty}
    (hty : g.HasOutput port ty) (hnative : ty.native = some native) :
    ∃ v, (r.graphInputs.zip values).lookup port = some v ∧ v.word.IsScalar native ∧
      ((inputRecord plan values).drop offset).take native.size = v.word.image := by
  have hpacked := (RecordLayout.ofTypes_eq_ok hplan.inputLayout).1
  have htypes := hplan.values_types hvalues
  obtain ⟨f, hf, rfl⟩ := Option.map_eq_some_iff.1 hoffset
  have hfield : (values.map Value.dataType)[slot]? = some f.dataType := by
    rw [htypes, List.getElem?_map, hf]
    rfl
  rw [List.getElem?_map, Option.map_eq_some_iff] at hfield
  obtain ⟨v, hv, hvf⟩ := hfield
  have hfirst : r.graphInputs.findIdx? (· == port) = some slot := by
    rw [← hplan.bindings.ports_eq, List.findIdx?_map]
    exact hslot
  obtain ⟨port', hport', houtput⟩ := exists_of_forall₂ hvalues hv
  obtain ⟨hlt, hequal, -⟩ := List.findIdx?_eq_some_iff_getElem.1 hfirst
  rw [List.getElem?_eq_getElem hlt] at hport'
  cases hport'
  rw [beq_iff_eq.1 hequal] at houtput
  have hvty : v.dataType = ty := houtput.unique hty
  rw [← hvty] at hnative
  have hbytes := RecordLayout.fieldBytes_fill hpacked (CompiledUnit.fits_of_types htypes)
    (RecordLayout.size_le_length_allocate _) (show _ = some f by rw [Nat.zero_add]; exact hf)
    (show (values.map Value.toBytes)[slot]? = some v.toBytes by rw [List.getElem?_map, hv]; rfl)
  refine ⟨v, lookup_zip_of_findIdx? hfirst hv, v.isScalar_word hnative, ?_⟩
  rw [RecordLayout.fieldBytes, Field.width, ← hvf, DataType.size_of_native hnative] at hbytes
  rw [v.image_word]
  exact hbytes

end UnitPlan.Serves

/-! ## Reading the output record -/

namespace CompiledUnit

variable {u : CompiledUnit}

theorem readOutputs_eq_ok {record : Bytes} {field : Nat} {ports : List PortRef}
    {values : List Value} (hports : ports.length = values.length)
    (h : ∀ k v, values[k]? = some v → u.outputLayout.read? record (field + k) = some v) :
    u.readOutputs record field ports = .ok values := by
  induction values generalizing field ports with
  | nil =>
      rw [List.length_nil, List.length_eq_zero_iff] at hports
      rw [hports]
      rfl
  | cons v values ih =>
      cases ports with
      | nil => contradiction
      | cons port ports =>
          have hrest : u.readOutputs record (field + 1) ports = .ok values := by
            refine ih (by simpa using hports) ?_
            intro k x hk
            rw [Nat.add_assoc, Nat.add_comm 1]
            exact h (k + 1) x hk
          have hfirst : u.outputLayout.read? record field = some v := h 0 v rfl
          rw [readOutputs, hfirst]
          dsimp only
          rw [hrest]
          rfl

/-- What is read from a record depends on its layout only. -/
theorem readOutputs_of_layout {u' : CompiledUnit} (hlayout : u'.outputLayout = u.outputLayout)
    {record : Bytes} {field : Nat} {ports : List PortRef} {vs : List Value}
    (h : u.readOutputs record field ports = .ok vs) :
    u'.readOutputs record field ports = .ok vs := by
  induction ports generalizing field vs with
  | nil => exact h
  | cons port ports ih =>
      unfold readOutputs at h ⊢
      rw [hlayout]
      split at h
      · contradiction
      · obtain ⟨rest, hrest, h₁⟩ := bind_eq_ok h
        rw [ih hrest]
        exact h₁

/-- A word that suits the type of an output, so that it can be read back. -/
def Suits (typed : TypedPort) (w : Word) : Prop :=
  ∃ native, typed.2.native = some native ∧ w.IsScalar native

variable {outputs : List TypedPort} {words : List Word}

theorem exists_values (hwords : List.Forall₂ Suits outputs words) :
    ∃ values, List.Forall₂ (fun (x : TypedPort × Word) v => Value.ofWord? x.1.2 x.2 = some v)
      (outputs.zip words) values := by
  induction hwords with
  | nil => exact ⟨[], .nil⟩
  | cons hw _ ih =>
      obtain ⟨native, hnative, hscalar⟩ := hw
      obtain ⟨values, hvalues⟩ := ih
      obtain ⟨v, hv⟩ := Value.exists_ofWord? hnative hscalar
      exact ⟨v :: values, .cons hv hvalues⟩

theorem fits_of_suits {layout : RecordLayout}
    (hlayout : RecordLayout.ofTypes (outputs.map Prod.snd) = .ok layout)
    (hwords : List.Forall₂ Suits outputs words) : layout.Fits 0 (words.map Word.image) := by
  have hfields := forall₂_of_map_eq (RecordLayout.ofTypes_eq_ok hlayout).2.symm
  unfold RecordLayout.Fits
  rw [List.drop_zero, List.forall₂_map_left_iff]
  refine forall₂_trans hwords hfields ?_
  rintro typed w f ⟨native, hnative, hscalar⟩ hty
  rw [hscalar.length_image, Field.width, ← hty, DataType.size_of_native hnative]
  rfl

/-- A record filled with the words of the outputs is read as their values. -/
theorem readOutputs_fill
    (hlayout : RecordLayout.ofTypes (outputs.map Prod.snd) = .ok u.outputLayout)
    (hwords : List.Forall₂ Suits outputs words) {ports : List PortRef}
    (hports : ports.length = outputs.length) {values : List Value}
    (hvalues : List.Forall₂ (fun (x : TypedPort × Word) v => Value.ofWord? x.1.2 x.2 = some v)
      (outputs.zip words) values) :
    u.readOutputs (u.outputLayout.fill u.outputLayout.allocate 0 (words.map Word.image)) 0 ports =
      .ok values := by
  obtain ⟨hpacked, htypes⟩ := RecordLayout.ofTypes_eq_ok hlayout
  have hfields := forall₂_of_map_eq htypes.symm
  have hfits := fits_of_suits hlayout hwords
  have hlength : ports.length = values.length := by
    rw [← hvalues.length_eq, List.length_zip, ← hwords.length_eq, Nat.min_self, hports]
  apply readOutputs_eq_ok hlength
  intro k v hk
  obtain ⟨⟨typed, w⟩, hpair, hv⟩ := exists_of_forall₂ hvalues hk
  obtain ⟨htyped, hw⟩ := List.getElem?_zip_eq_some.1 hpair
  obtain ⟨typed', htyped', native, hnative, hscalar⟩ := exists_of_forall₂ hwords hw
  obtain ⟨f, hf⟩ : ∃ f, u.outputLayout.fields[k]? = some f := by
    obtain ⟨hlt, -⟩ := List.getElem?_eq_some_iff.1 htyped
    rw [hfields.length_eq] at hlt
    exact ⟨_, List.getElem?_eq_getElem hlt⟩
  obtain ⟨typed'', htyped'', hty⟩ := exists_of_forall₂ hfields hf
  rw [htyped] at htyped' htyped''
  cases htyped'
  cases htyped''
  have hbytes := RecordLayout.fieldBytes_fill hpacked hfits
    (RecordLayout.size_le_length_allocate _) (show _ = some f by rw [Nat.zero_add]; exact hf)
    (show (words.map Word.image)[k]? = some w.image by rw [List.getElem?_map, hw]; rfl)
  rw [RecordLayout.fieldBytes, Field.width, ← hty, DataType.size_of_native hnative] at hbytes
  rw [RecordLayout.read?, Nat.zero_add, hf, ← hv]
  change Value.ofBytes? f.dataType _ = _
  rw [← hty]
  exact Value.ofBytes?_image hnative hscalar hbytes

end CompiledUnit

end Dataflow
