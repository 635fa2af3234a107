import TemplateCheck.Portable.Reader
import TemplateCheck.Proofs.Json.Reading
import TemplateCheck.Proofs.Portable.Parts

/-! The JSON text of a portable type, read again. -/

namespace TemplateCheck.PortableType

def describe (kind : String) (fields : List (String × Json)) : Json :=
  .object (("kind", .string kind) :: fields)

def flagField (key : String) (value : Bool) : List (String × Json) :=
  if value then [(key, .bool true)] else []

def partValue (name : String) (fields : List (String × Json)) (type : Json) : Json :=
  .object (("name", .string name) :: fields ++ [("type", type)])

mutual

def asJson : PortableType → Json
  | error => describe "error" []
  | primitive name => describe "primitive" [("name", .string name)]
  | element tag => describe "element" [("tag", .string tag)]
  | list item => describe "list" [("element", asJson item)]
  | set item => describe "set" [("element", asJson item)]
  | iterable item => describe "iterable" [("element", asJson item)]
  | map key value => describe "map" [("key", asJson key), ("value", asJson value)]
  | legacyObjectMap key value =>
    describe "legacy_object_map" [("key", asJson key), ("value", asJson value)]
  | record properties => describe "record" [("properties", .array (propertyValues properties))]
  | template parameters result =>
    describe "template" [("parameters", .array (templateParameterValues parameters)),
      ("return_type", asJson result)]
  | function parameters result =>
    describe "function" [("parameters", .array (functionParameterValues parameters)),
      ("return_type", asJson result)]
  | union members => describe "union" [("members", .array (memberValues members))]
  | intersection members => describe "intersection" [("members", .array (memberValues members))]
  | literal value => describe "literal" [("value", .string value)]
  | proto name => describe "proto" [("name", .string name)]
  | protoEnum name => describe "proto_enum" [("name", .string name)]
  | anyEnum => describe "any_enum" []
  | unknownEnum => describe "unknown_enum" []

def memberValues : List PortableType → List Json
  | [] => []
  | t :: rest => asJson t :: memberValues rest

def propertyValues : List (RecordProperty PortableType) → List Json
  | [] => []
  | ⟨name, optional, type⟩ :: rest =>
    partValue name (flagField "optional" optional) (asJson type) :: propertyValues rest

def templateParameterValues : List (TemplateParameter PortableType) → List Json
  | [] => []
  | ⟨name, kind, required, type⟩ :: rest =>
    partValue name (flagField "attribute" (kind == .htmlAttribute) ++
      [("required", .bool required)]) (asJson type) :: templateParameterValues rest

def functionParameterValues : List (FunctionParameter PortableType) → List Json
  | [] => []
  | ⟨name, variadic, type⟩ :: rest =>
    partValue name (flagField "var_args" variadic) (asJson type) :: functionParameterValues rest

end

section Parts

def propertyValue (p : RecordProperty PortableType) : Json :=
  partValue p.name (flagField "optional" p.optional) p.type.asJson

def templateParameterValue (p : TemplateParameter PortableType) : Json :=
  partValue p.name (flagField "attribute" (p.kind == .htmlAttribute) ++
    [("required", .bool p.required)]) p.type.asJson

def functionParameterValue (p : FunctionParameter PortableType) : Json :=
  partValue p.name (flagField "var_args" p.variadic) p.type.asJson

theorem memberValues_eq_map (ts : List PortableType) : memberValues ts = ts.map asJson :=
  eq_map_of_cons rfl (fun _ _ => rfl) ts

theorem propertyValues_eq_map (ps : List (RecordProperty PortableType)) :
    propertyValues ps = ps.map propertyValue :=
  eq_map_of_cons rfl (fun _ _ => rfl) ps

theorem templateParameterValues_eq_map (ps : List (TemplateParameter PortableType)) :
    templateParameterValues ps = ps.map templateParameterValue :=
  eq_map_of_cons rfl (fun _ _ => rfl) ps

theorem functionParameterValues_eq_map (ps : List (FunctionParameter PortableType)) :
    functionParameterValues ps = ps.map functionParameterValue :=
  eq_map_of_cons rfl (fun _ _ => rfl) ps

end Parts

section Writing
open Json (Writes)

abbrev Written (fields : List (String × Json × String)) : Prop :=
  ∀ f ∈ fields, Writes f.2.1 f.2.2

theorem writes_describe (kind : String) (fields : List (String × Json × String))
    (h : Written fields) : Writes (describe kind (fields.map fun f => (f.1, f.2.1)))
      (jsonOfKind kind (fields.map fun f => (f.1, f.2.2))) := by
  have hall : Written (("kind", .string kind, Json.quote kind) :: fields) :=
    List.forall_mem_cons.2 ⟨.string kind, h⟩
  exact .object hall

theorem writes_flag (key : String) (value : Bool) : ∃ fields, Written fields ∧
    (fields.map fun f => (f.1, f.2.1)) = flagField key value ∧
    (fields.map fun f => (f.1, f.2.2)) = jsonFlag key value := by
  cases value with
  | false => exact ⟨[], List.forall_mem_nil _, rfl, rfl⟩
  | true => exact ⟨[(key, .bool true, "true")], List.forall_mem_singleton.2 (.bool true), rfl, rfl⟩

theorem writes_part (name : String) {fields : List (String × Json × String)} (h : Written fields)
    {type : Json} {text : String} (htype : Writes type text) :
    Writes (partValue name (fields.map fun f => (f.1, f.2.1)) type)
      (jsonObject (("name", Json.quote name) :: (fields.map fun f => (f.1, f.2.2)) ++
        [("type", text)])) := by
  have hall : Written
      (("name", .string name, Json.quote name) :: fields ++ [("type", type, text)]) :=
    List.forall_mem_append.2 ⟨List.forall_mem_cons.2 ⟨.string name, h⟩,
      List.forall_mem_singleton.2 htype⟩
  have hobject := Writes.object hall
  simpa [partValue] using hobject

theorem writes_items {γ : Type} {ps : List γ} {value : γ → Json} {text : γ → String}
    (h : ∀ p ∈ ps, Writes (value p) (text p)) :
    Writes (.array (ps.map value)) (jsonArray (ps.map text)) := by
  have hitems : ∀ i ∈ ps.map fun p => (value p, text p), Writes i.1 i.2 := List.forall_mem_map.2 h
  have harray := Writes.array hitems
  rwa [List.map_map, List.map_map] at harray

theorem writes_members {ts : List PortableType} (h : ∀ t ∈ ts, Writes t.asJson t.toJson) :
    Writes (.array (memberValues ts)) (jsonArray (membersJson ts)) := by
  have htexts : membersJson ts = ts.map toJson := eq_map_of_cons rfl (fun _ _ => rfl) ts
  rw [memberValues_eq_map, htexts]
  exact writes_items h

theorem writes_properties {ps : List (RecordProperty PortableType)}
    (h : ∀ p ∈ ps, Writes p.type.asJson p.type.toJson) :
    Writes (.array (propertyValues ps)) (jsonArray (propertiesJson ps)) := by
  have htexts : propertiesJson ps = ps.map fun p => jsonObject (("name", Json.quote p.name) ::
      jsonFlag "optional" p.optional ++ [("type", p.type.toJson)]) :=
    eq_map_of_cons rfl (fun _ _ => rfl) ps
  rw [propertyValues_eq_map, htexts]
  refine writes_items fun p hp => ?_
  obtain ⟨fields, hfields, hvalues, htexts⟩ := writes_flag "optional" p.optional
  rw [propertyValue, ← hvalues, ← htexts]
  exact writes_part p.name hfields (h p hp)

theorem writes_templateParameters {ps : List (TemplateParameter PortableType)}
    (h : ∀ p ∈ ps, Writes p.type.asJson p.type.toJson) :
    Writes (.array (templateParameterValues ps)) (jsonArray (templateParametersJson ps)) := by
  have htexts : templateParametersJson ps = ps.map fun p => jsonObject
      (("name", Json.quote p.name) :: (jsonFlag "attribute" (p.kind == .htmlAttribute) ++
        [("required", jsonBool p.required)]) ++ [("type", p.type.toJson)]) := by
    refine eq_map_of_cons rfl (fun p rest => ?_) ps
    rw [templateParametersJson, List.cons_append, List.cons_append, List.append_assoc]
    rfl
  rw [templateParameterValues_eq_map, htexts]
  refine writes_items fun p hp => ?_
  obtain ⟨fields, hfields, hvalues, htexts⟩ :=
    writes_flag "attribute" (p.kind == .htmlAttribute)
  have hrequired : Written (fields ++ [("required", .bool p.required, jsonBool p.required)]) :=
    List.forall_mem_append.2 ⟨hfields, List.forall_mem_singleton.2 (.bool p.required)⟩
  have hpart := writes_part p.name hrequired (h p hp)
  rw [List.map_append, List.map_append, hvalues, htexts] at hpart
  exact hpart

theorem writes_functionParameters {ps : List (FunctionParameter PortableType)}
    (h : ∀ p ∈ ps, Writes p.type.asJson p.type.toJson) :
    Writes (.array (functionParameterValues ps)) (jsonArray (functionParametersJson ps)) := by
  have htexts : functionParametersJson ps = ps.map fun p => jsonObject
      (("name", Json.quote p.name) :: jsonFlag "var_args" p.variadic ++
        [("type", p.type.toJson)]) :=
    eq_map_of_cons rfl (fun _ _ => rfl) ps
  rw [functionParameterValues_eq_map, htexts]
  refine writes_items fun p hp => ?_
  obtain ⟨fields, hfields, hvalues, htexts⟩ := writes_flag "var_args" p.variadic
  rw [functionParameterValue, ← hvalues, ← htexts]
  exact writes_part p.name hfields (h p hp)

theorem writes_toJson (p : PortableType) : Writes p.asJson p.toJson := by
  induction p using induct with
  | step p ih =>
    have bare (kind : String) : Writes (describe kind []) (jsonOfKind kind []) :=
      writes_describe kind [] (List.forall_mem_nil _)
    have one (kind key : String) {value : Json} {text : String} (h : Writes value text) :
        Writes (describe kind [(key, value)]) (jsonOfKind kind [(key, text)]) :=
      writes_describe kind [(key, value, text)] (List.forall_mem_singleton.2 h)
    have two (kind key key' : String) {value value' : Json} {text text' : String}
        (h : Writes value text) (h' : Writes value' text') :
        Writes (describe kind [(key, value), (key', value')])
          (jsonOfKind kind [(key, text), (key', text')]) :=
      writes_describe kind [(key, value, text), (key', value', text')]
        (List.forall_mem_cons.2 ⟨h, List.forall_mem_singleton.2 h'⟩)
    cases p with
    | error | anyEnum | unknownEnum => exact bare _
    | primitive name | element tag | literal value | proto name | protoEnum name =>
      exact one _ _ (.string _)
    | list item | set item | iterable item => exact one _ _ (ih item (.head _))
    | map key value | legacyObjectMap key value =>
      exact two _ _ _ (ih key (.head _)) (ih value (.tail _ (.head _)))
    | union members | intersection members => exact one _ _ (writes_members ih)
    | record properties =>
      exact one _ _ (writes_properties fun p hp => ih p.type (List.mem_map_of_mem hp))
    | template parameters result =>
      exact two _ _ _ (writes_templateParameters fun p hp =>
        ih p.type (List.mem_append_left _ (List.mem_map_of_mem hp)))
        (ih result (List.mem_append_right _ (.head _)))
    | function parameters result =>
      exact two _ _ _ (writes_functionParameters fun p hp =>
        ih p.type (List.mem_append_left _ (List.mem_map_of_mem hp)))
        (ih result (List.mem_append_right _ (.head _)))

end Writing

section Reading
open Json (nesting nestingAll nestingMembers nestingAll_le_iff nestingMembers_le_iff)
variable {type? : Json → Option PortableType} {kind : String} {fields : Members} {depth : Nat}
  {p : PortableType}

theorem tagged?_describe (nested : Bool) (hkind : kind ∈ kinds)
    (hfields : ∀ f ∈ fields, f.1 ≠ "kind") :
    tagged? nested (describe kind fields) = some (kind, fields) := by
  have hnone : fields.filter (·.1 == "kind") = [] :=
    List.filter_eq_nil_iff.2 fun f hf => by simpa using hfields f hf
  have hall : fields.filter (·.1 != "kind") = fields :=
    List.filter_eq_self.2 fun f hf => by simpa using hfields f hf
  have hmember : member? (("kind", .string kind) :: fields) "kind" = some (.string kind) := by
    rw [member?, List.filter_cons_of_pos (by rfl), hnone]
  have hkind? : kind? nested (.string kind) = some kind := by
    rw [kind?, if_pos (List.contains_iff_mem.2 hkind)]
  rw [describe, tagged?, hmember]
  change (kind? nested (.string kind)).bind _ = _
  rw [hkind?, List.filter_cons_of_neg (by simp), hall]
  rfl

theorem ofJsonWithin_describe (nested : Bool) (hkind : kind ∈ kinds)
    (hfields : ∀ f ∈ fields, f.1 ≠ "kind")
    (hread : ∀ depth, (∀ f ∈ fields, nesting f.2 ≤ depth) →
      ofMembers? (ofJsonWithin depth true) kind fields = some p)
    (hdepth : nesting (describe kind fields) ≤ depth) :
    ofJsonWithin depth nested (describe kind fields) = some p := by
  rw [describe, nesting, nestingMembers] at hdepth
  obtain ⟨depth, rfl⟩ := Nat.exists_eq_add_of_le' (Nat.le_trans (Nat.le_add_left 1 _) hdepth)
  have hroom := nestingMembers_le_iff.1 (Nat.le_trans (Nat.le_max_right _ _)
    (Nat.le_of_succ_le_succ hdepth))
  rw [ofJsonWithin, tagged?_describe nested hkind hfields]
  exact hread depth hroom

theorem nesting_le_partValue (name : String) (fields : List (String × Json)) (type : Json) :
    nesting type ≤ nesting (partValue name fields type) := by
  have hmem : ("type", type) ∈ ("name", .string name) :: fields ++ [("type", type)] :=
    List.mem_append_right _ (List.mem_singleton_self _)
  exact Nat.le_succ_of_le (nestingMembers_le_iff.1 (Nat.le_refl _) _ hmem)

theorem nesting_le_of_array {values : List Json} (h : nesting (.array values) ≤ depth) :
    ∀ v ∈ values, nesting v ≤ depth := fun v hv =>
  nestingAll_le_iff.1 (Nat.le_of_succ_le h) v hv

section Parts

theorem property?_propertyValue {p : RecordProperty PortableType}
    (h : type? p.type.asJson = some p.type) : property? type? (propertyValue p) = some p := by
  obtain ⟨name, optional, type⟩ := p
  cases optional <;> simp [property?, propertyValue, partValue, structure?, text?, flag?,
    flagField, bool?, typeAt?, member?, h]

theorem templateParameter?_templateParameterValue {p : TemplateParameter PortableType}
    (h : type? p.type.asJson = some p.type) :
    templateParameter? type? (templateParameterValue p) = some p := by
  obtain ⟨name, kind, required, type⟩ := p
  cases kind <;> simp [templateParameter?, templateParameterValue, partValue, structure?, text?,
    flag?, flagField, bool?, typeAt?, member?, h]

theorem functionParameter?_functionParameterValue {p : FunctionParameter PortableType}
    (h : type? p.type.asJson = some p.type) :
    functionParameter? type? (functionParameterValue p) = some p := by
  obtain ⟨name, variadic, type⟩ := p
  cases variadic <;> simp [functionParameter?, functionParameterValue, partValue, structure?,
    text?, flag?, flagField, bool?, typeAt?, member?, h]

theorem mapM_map_eq_some {γ : Type} {read : Json → Option γ} {value : γ → Json} {ps : List γ}
    (h : ∀ p ∈ ps, read (value p) = some p) : (ps.map value).mapM read = some ps := by
  induction ps with
  | nil => rfl
  | cons p ps ih =>
    obtain ⟨hp, hps⟩ := List.forall_mem_cons.1 h
    simp [hp, ih hps]

end Parts

theorem ofJsonWithin_asJson (p : PortableType) (nested : Bool) (depth : Nat)
    (hdepth : nesting p.asJson ≤ depth) : ofJsonWithin depth nested p.asJson = some p := by
  induction p using induct generalizing nested depth with
  | step p ih =>
    cases p with
    | error | anyEnum | unknownEnum =>
      exact ofJsonWithin_describe nested (by decide) (by simp) (fun depth _ => rfl) hdepth
    | primitive name | element tag | literal value | proto name | protoEnum name =>
      refine ofJsonWithin_describe nested (by decide) (by simp) (fun depth _ => ?_) hdepth
      simp [ofMembers?, text?, member?]
    | list item | set item | iterable item =>
      refine ofJsonWithin_describe nested (by decide) (by simp) (fun depth hroom => ?_) hdepth
      have hitem := ih item (.head _) true depth (hroom _ (.head _))
      simp [ofMembers?, typeAt?, member?, hitem]
    | map key value | legacyObjectMap key value =>
      refine ofJsonWithin_describe nested (by decide) (by simp) (fun depth hroom => ?_) hdepth
      have hkey := ih key (.head _) true depth (hroom _ (.head _))
      have hvalue := ih value (.tail _ (.head _)) true depth (hroom _ (.tail _ (.head _)))
      simp [ofMembers?, typeAt?, member?, hkey, hvalue]
    | union members | intersection members =>
      refine ofJsonWithin_describe nested (by decide) (by simp) (fun depth hroom => ?_) hdepth
      have hvalues := nesting_le_of_array (hroom _ (.head _))
      rw [memberValues_eq_map, List.forall_mem_map] at hvalues
      have hread : (members.map asJson).mapM (ofJsonWithin depth true) = some members :=
        mapM_map_eq_some fun t ht => ih t ht true depth (hvalues t ht)
      simp [ofMembers?, items?, member?, memberValues_eq_map, hread]
    | record properties =>
      refine ofJsonWithin_describe nested (by decide) (by simp) (fun depth hroom => ?_) hdepth
      have hvalues := nesting_le_of_array (hroom _ (.head _))
      rw [propertyValues_eq_map, List.forall_mem_map] at hvalues
      have hread := mapM_map_eq_some fun p hp => property?_propertyValue
        (ih p.type (List.mem_map_of_mem hp) true depth
          (Nat.le_trans (nesting_le_partValue ..) (hvalues p hp)))
      simp [ofMembers?, items?, member?, propertyValues_eq_map, hread]
    | template parameters result =>
      refine ofJsonWithin_describe nested (by decide) (by simp) (fun depth hroom => ?_) hdepth
      have hvalues := nesting_le_of_array (hroom _ (.head _))
      rw [templateParameterValues_eq_map, List.forall_mem_map] at hvalues
      have hread := mapM_map_eq_some fun p hp => templateParameter?_templateParameterValue
        (ih p.type (List.mem_append_left _ (List.mem_map_of_mem hp)) true depth
          (Nat.le_trans (nesting_le_partValue ..) (hvalues p hp)))
      have hresult := ih result (List.mem_append_right _ (.head _)) true depth
        (hroom _ (.tail _ (.head _)))
      simp [ofMembers?, items?, typeAt?, member?, templateParameterValues_eq_map, hread, hresult]
    | function parameters result =>
      refine ofJsonWithin_describe nested (by decide) (by simp) (fun depth hroom => ?_) hdepth
      have hvalues := nesting_le_of_array (hroom _ (.head _))
      rw [functionParameterValues_eq_map, List.forall_mem_map] at hvalues
      have hread := mapM_map_eq_some fun p hp => functionParameter?_functionParameterValue
        (ih p.type (List.mem_append_left _ (List.mem_map_of_mem hp)) true depth
          (Nat.le_trans (nesting_le_partValue ..) (hvalues p hp)))
      have hresult := ih result (List.mem_append_right _ (.head _)) true depth
        (hroom _ (.tail _ (.head _)))
      simp [ofMembers?, items?, typeAt?, member?, functionParameterValues_eq_map, hread, hresult]

theorem ofJson?_asJson (h : nesting p.asJson ≤ Json.nestingLimit) : ofJson? p.asJson = some p :=
  ofJsonWithin_asJson p false _ (Nat.le_succ_of_le h)

section Depth
variable {n : Nat}

theorem nesting_describe_le (h : ∀ f ∈ fields, nesting f.2 ≤ n) :
    nesting (describe kind fields) ≤ n + 1 := by
  rw [describe, nesting, nestingMembers]
  exact Nat.succ_le_succ (Nat.max_le.2 ⟨Nat.zero_le _, nestingMembers_le_iff.2 h⟩)

theorem nesting_array_le {γ : Type} {ps : List γ} {value : γ → Json}
    (h : ∀ p ∈ ps, nesting (value p) ≤ n) : nesting (.array (ps.map value)) ≤ n + 1 :=
  Nat.succ_le_succ (nestingAll_le_iff.2 (List.forall_mem_map.2 h))

theorem nesting_flagField (key : String) (value : Bool) :
    ∀ f ∈ flagField key value, nesting f.2 ≤ n := by
  cases value with
  | false => exact List.forall_mem_nil _
  | true => exact List.forall_mem_singleton.2 (Nat.zero_le _)

theorem nesting_partValue_le (name : String) {fields : List (String × Json)} {type : Json}
    (hfields : ∀ f ∈ fields, nesting f.2 ≤ n) (htype : nesting type ≤ n) :
    nesting (partValue name fields type) ≤ n + 1 := by
  refine Nat.succ_le_succ (nestingMembers_le_iff.2 (List.forall_mem_append.2 ⟨?_, ?_⟩))
  · exact List.forall_mem_cons.2 ⟨Nat.zero_le _, hfields⟩
  · exact List.forall_mem_singleton.2 htype

theorem nesting_asJson_le (h : ∀ q ∈ p.children, nesting q.asJson + 1 ≤ n) :
    nesting p.asJson ≤ n + 2 := by
  have room {q : PortableType} (hq : q ∈ p.children) : nesting q.asJson ≤ n + 1 :=
    Nat.le_trans (Nat.le_add_right _ 1) (Nat.le_succ_of_le (h q hq))
  have part {q : PortableType} (name : String) {fields : List (String × Json)}
      (hfields : ∀ n, ∀ f ∈ fields, nesting f.2 ≤ n) (hq : q ∈ p.children) :
      nesting (partValue name fields q.asJson) ≤ n := by
    obtain ⟨m, rfl⟩ := Nat.exists_eq_add_of_le' (Nat.le_trans (Nat.le_add_left 1 _) (h q hq))
    exact nesting_partValue_le name (hfields m) (Nat.le_of_succ_le_succ (h q hq))
  cases p with
  | error | anyEnum | unknownEnum => exact nesting_describe_le (List.forall_mem_nil _)
  | primitive | element | literal | proto | protoEnum =>
    exact nesting_describe_le (List.forall_mem_singleton.2 (Nat.zero_le _))
  | list item | set item | iterable item =>
    exact nesting_describe_le (List.forall_mem_singleton.2 (room (.head _)))
  | map key value | legacyObjectMap key value =>
    exact nesting_describe_le (List.forall_mem_cons.2
      ⟨room (.head _), List.forall_mem_singleton.2 (room (.tail _ (.head _)))⟩)
  | union members | intersection members =>
    have hvalues := nesting_array_le fun t ht => Nat.le_of_succ_le (h t ht)
    rw [children, ← memberValues_eq_map] at hvalues
    exact nesting_describe_le (List.forall_mem_singleton.2 hvalues)
  | record properties =>
    have hvalues : nesting (.array (properties.map propertyValue)) ≤ n + 1 :=
      nesting_array_le fun p hp => part p.name (fun _ => nesting_flagField _ _)
        (List.mem_map_of_mem hp)
    rw [← propertyValues_eq_map] at hvalues
    exact nesting_describe_le (List.forall_mem_singleton.2 hvalues)
  | template parameters result =>
    have hvalues : nesting (.array (parameters.map templateParameterValue)) ≤ n + 1 :=
      nesting_array_le fun p hp => part p.name
        (fun _ => List.forall_mem_append.2
          ⟨nesting_flagField _ _, List.forall_mem_singleton.2 (Nat.zero_le _)⟩)
        (List.mem_append_left _ (List.mem_map_of_mem hp))
    rw [← templateParameterValues_eq_map] at hvalues
    exact nesting_describe_le (List.forall_mem_cons.2
      ⟨hvalues, List.forall_mem_singleton.2 (room (List.mem_append_right _ (.head _)))⟩)
  | function parameters result =>
    have hvalues : nesting (.array (parameters.map functionParameterValue)) ≤ n + 1 :=
      nesting_array_le fun p hp => part p.name (fun _ => nesting_flagField _ _)
        (List.mem_append_left _ (List.mem_map_of_mem hp))
    rw [← functionParameterValues_eq_map] at hvalues
    exact nesting_describe_le (List.forall_mem_cons.2
      ⟨hvalues, List.forall_mem_singleton.2 (room (List.mem_append_right _ (.head _)))⟩)

end Depth
end Reading

end TemplateCheck.PortableType
