/-
Decoding a snapshot document (`decode_snapshot` and the wire types of
`model.rs`).

Most wire types refuse a field they do not have. Chain members, front-end
credentials and backends pass it over, and so does an action or egress whose
extra field is a `null` of another variant; `decode_snapshot_refuses_iff`
says that these are all.
-/
import Rove.Base.Json
import Rove.Model.Compile

namespace Rove.Model

open List
open Decoder

/-! ## Wire types -/

/-- The objects of a snapshot that have a fixed set of fields. -/
inductive Kind where
  | snapshot | user | frontendCred | policy | route | action | egress | backend | chainMember | nodeOverride
  deriving DecidableEq

/-- What a field holds, as far as objects of these kinds go. -/
inductive Content where
  | leaf
  | one (k : Kind)
  | list (k : Kind)
  | map (k : Kind)
  deriving DecidableEq

/-- The fields of a kind, in declaration order. -/
def Kind.schema : Kind → List (Str × Content)
  | .snapshot => [("schema_version", .leaf), ("version", .leaf), ("users", .map .user),
      ("routing_policies", .map .policy), ("egresses", .map .egress),
      ("node_overrides", .map .nodeOverride)]
  | .user => [("password", .leaf), ("expire", .leaf), ("up_rate", .leaf),
      ("down_rate", .leaf), ("max_connections", .leaf), ("policy", .leaf),
      ("frontends", .map .frontendCred)]
  | .frontendCred => [("uuid", .leaf), ("password", .leaf)]
  | .policy => [("routes", .list .route), ("default_action", .one .action)]
  | .route => [("selectors", .leaf), ("action", .one .action)]
  | .action => [("type", .leaf), ("egress", .leaf)]
  | .egress => [("type", .leaf), ("backend", .one .backend), ("members", .list .chainMember)]
  | .backend => [("kind", .leaf), ("addr", .leaf), ("username", .leaf), ("password", .leaf),
      ("tls", .leaf), ("skip_cert_verify", .leaf)]
  | .chainMember => [("id", .leaf), ("priority", .leaf), ("backend", .one .backend)]
  | .nodeOverride => [("egresses", .map .egress)]

/-- The names of the fields of a kind. -/
def Kind.names (k : Kind) : List Str := k.schema.map Prod.fst

/-- `#[serde(deny_unknown_fields)]`. -/
def Kind.strict : Kind → Bool
  | .frontendCred | .backend | .chainMember => false
  | _ => true

/-- `RawUpstream`. -/
def decodeUpstream : Decoder RawUpstream :=
  struct (Kind.strict .backend) (Kind.names .backend) fun get => do
    let kind ← required text get "kind"
    let addr ← required text get "addr"
    let username ← withDefault (option text) none get "username"
    let password ← withDefault (option text) none get "password"
    let tls ← withDefault flag false get "tls"
    let skipCertVerify ← withDefault flag false get "skip_cert_verify"
    pure { kind, addr, username, password, tls, skipCertVerify }

/-- `RawChainMember`. -/
def decodeChainMember : Decoder RawChainMember :=
  struct (Kind.strict .chainMember) (Kind.names .chainMember) fun get => do
    let id ← required text get "id"
    let priority ← required (unsigned 32) get "priority"
    let backend ← required decodeUpstream get "backend"
    pure { id, priority, backend }

/-- `RawFrontendCred`. -/
def decodeFrontendCred : Decoder RawFrontendCred :=
  struct (Kind.strict .frontendCred) (Kind.names .frontendCred) fun get => do
    let uuid ← withDefault (option text) none get "uuid"
    let password ← withDefault (option text) none get "password"
    pure { uuid, password }

/-- `RawUser`. -/
def decodeUser : Decoder RawUser :=
  struct (Kind.strict .user) (Kind.names .user) fun get => do
    let password ← required text get "password"
    let expire ← withDefault (option text) none get "expire"
    let upRate ← withDefault (unsigned 64) 0 get "up_rate"
    let downRate ← withDefault (unsigned 64) 0 get "down_rate"
    let maxConnections ← withDefault (unsigned 64) 0 get "max_connections"
    let policy ← required text get "policy"
    let frontends ← withDefault (map decodeFrontendCred) ∅ get "frontends"
    pure { password, expire, upRate, downRate, maxConnections, policy, frontends }

/-- `RawAction::try_from(RawActionWire)`. -/
def actionOfWire (kind : Str) (egress : Option Str) : Res RawAction :=
  if kind = "egress" then
    match egress with
    | some egress => pure (.egress egress)
    | none => throw "action type \"egress\" requires an \"egress\" id"
  else if kind = "direct" then do
    ensure (egress = none) "action type \"direct\" must not set \"egress\""
    pure .direct
  else if kind = "block" then do
    ensure (egress = none) "action type \"block\" must not set \"egress\""
    pure .block
  else
    let other := Str.debug kind
    throw s!"unknown action type {other}"

/-- `RawAction`. -/
def decodeAction : Decoder RawAction :=
  struct (Kind.strict .action) (Kind.names .action) fun get => do
    let kind ← required text get "type"
    let egress ← withDefault (option text) none get "egress"
    actionOfWire kind egress

/-- `RawRoute`. -/
def decodeRoute : Decoder RawRoute :=
  struct (Kind.strict .route) (Kind.names .route) fun get => do
    let selectors ← withDefault (list text) [] get "selectors"
    let action ← required decodeAction get "action"
    pure { selectors, action }

/-- `RawRoutingPolicy`. -/
def decodePolicy : Decoder RawRoutingPolicy :=
  struct (Kind.strict .policy) (Kind.names .policy) fun get => do
    let routes ← withDefault (list decodeRoute) [] get "routes"
    let defaultAction ← withDefault (option decodeAction) none get "default_action"
    pure { routes, defaultAction }

/-- `RawEgress::try_from(RawEgressWire)`. -/
def egressOfWire (kind : Str) (backend : Option RawUpstream) (members : Option (List RawChainMember)) :
    Res RawEgress :=
  if kind = "upstream" then do
    ensure (members = none) "egress type \"upstream\" must not set \"members\""
    match backend with
    | some backend => pure (.upstream backend)
    | none => throw "egress type \"upstream\" requires a \"backend\""
  else if kind = "chain" then do
    ensure (backend = none) "egress type \"chain\" must not set \"backend\""
    match members with
    | some members => pure (.chain members)
    | none => throw "egress type \"chain\" requires \"members\""
  else
    let other := Str.debug kind
    throw s!"unknown egress type {other}"

/-- `RawEgress`. -/
def decodeEgress : Decoder RawEgress :=
  struct (Kind.strict .egress) (Kind.names .egress) fun get => do
    let kind ← required text get "type"
    let backend ← withDefault (option decodeUpstream) none get "backend"
    let members ← withDefault (option (list decodeChainMember)) none get "members"
    egressOfWire kind backend members

/-- `NodeOverride`. -/
def decodeNodeOverride : Decoder NodeOverride :=
  struct (Kind.strict .nodeOverride) (Kind.names .nodeOverride) fun get => do
    let egresses ← withDefault (map decodeEgress) ∅ get "egresses"
    pure { egresses }

/-- `RawSnapshot`. -/
def decodeDocument : Decoder RawSnapshot :=
  struct (Kind.strict .snapshot) (Kind.names .snapshot) fun get => do
    let schemaVersion ← required (unsigned 32) get "schema_version"
    let version ← required (unsigned 64) get "version"
    let users ← withDefault (map decodeUser) ∅ get "users"
    let routingPolicies ← withDefault (map decodePolicy) ∅ get "routing_policies"
    let egresses ← withDefault (map decodeEgress) ∅ get "egresses"
    let nodeOverrides ← withDefault (map decodeNodeOverride) ∅ get "node_overrides"
    pure { schemaVersion, version, users, routingPolicies, egresses, nodeOverrides }

/-- `decode_snapshot`, over a JSON reader. -/
def decodeSnapshot (readJson : List UInt8 → Res Json) (bytes : List UInt8) : Res RawSnapshot := do
  let doc ← readJson bytes
  let doc ← decodeDocument doc
  ensure (schemaVersionSupported doc.schemaVersion maxSupportedSchemaVersion = true)
    s!"unsupported snapshot schema_version {doc.schemaVersion.toNat} (this node supports 1..={maxSupportedSchemaVersion.toNat})"
  pure doc

/-! ## Adding a field -/

/-- The `type` of an action or egress. -/
def typeOf (k : Kind) (fields : List (Str × Json)) : Option Str :=
  match fieldOf k.names fields "type" with
  | some (.str s) => some s
  | _ => none

/-- The fields of an action's variant. -/
def definedAction (fields : List (Str × Json)) : List Str :=
  if typeOf .action fields = some "direct".toList ∨ typeOf .action fields = some "block".toList then ["type"]
  else Kind.names .action

/-- The fields of an egress' variant. -/
def definedEgress (fields : List (Str × Json)) : List Str :=
  if typeOf .egress fields = some "upstream".toList then ["type", "backend"]
  else if typeOf .egress fields = some "chain".toList then ["type", "members"]
  else Kind.names .egress

/-- The fields the schema defines for an object: those of its kind, and for an
action or egress those of its variant. -/
def defined (k : Kind) (fields : List (Str × Json)) : List Str :=
  match k with
  | .action => definedAction fields
  | .egress => definedEgress fields
  | k => k.names

/-- A field that is added to an object of some kind. -/
structure Addition where
  kind : Kind
  name : Str
  value : Json

/-- One object of the addition's kind, somewhere in a document of kind `k`,
gets the addition's field, which it did not have and the schema does not
define for it. -/
inductive Adds (a : Addition) : Kind → Json → Json → Prop
  | here (pre post : List (Str × Json)) : a.name ∉ (pre ++ post).map Prod.fst → a.name ∉ defined a.kind (pre ++ post) →
    Adds a a.kind (.obj (pre ++ post)) (.obj (pre ++ (a.name, a.value) :: post))
  | one {k k' : Kind} {name : Str} {j j' J J' : Json} : (name, .one k') ∈ k.schema → Adds a k' j j' →
    FieldChange k.names name j j' J J' → Adds a k J J'
  | list {k k' : Kind} {name : Str} {j j' J J' : Json} (pre post : List Json) : (name, .list k') ∈ k.schema →
    Adds a k' j j' → FieldChange k.names name (.arr (pre ++ j :: post)) (.arr (pre ++ j' :: post)) J J' → Adds a k J J'
  | map {k k' : Kind} {name key : Str} {j j' J J' : Json} (pre post : List (Str × Json)) :
    (name, .map k') ∈ k.schema → Adds a k' j j' →
    FieldChange k.names name (.obj (pre ++ (key, j) :: post)) (.obj (pre ++ (key, j') :: post)) J J' → Adds a k J J'

/-- A field that the decoder notices: not one of a lax kind, and not a `null`
that stands for a field of another variant. -/
def Addition.noticed (a : Addition) : Prop := a.kind.strict = true ∧ ¬ (a.name ∈ a.kind.names ∧ a.value = .null)

/-- The value an object of a kind is decoded to. -/
def Kind.Value : Kind → Type
  | .snapshot => RawSnapshot
  | .user => RawUser
  | .frontendCred => RawFrontendCred
  | .policy => RawRoutingPolicy
  | .route => RawRoute
  | .action => RawAction
  | .egress => RawEgress
  | .backend => RawUpstream
  | .chainMember => RawChainMember
  | .nodeOverride => NodeOverride

def Kind.decode : (k : Kind) → Decoder k.Value
  | .snapshot => decodeDocument
  | .user => decodeUser
  | .frontendCred => decodeFrontendCred
  | .policy => decodePolicy
  | .route => decodeRoute
  | .action => decodeAction
  | .egress => decodeEgress
  | .backend => decodeUpstream
  | .chainMember => decodeChainMember
  | .nodeOverride => decodeNodeOverride

theorem Kind.nodup_names (k : Kind) : k.names.Nodup := by
  cases k <;> decide

theorem Adds.ne_null {a k j j'} (h : Adds a k j j') : j ≠ .null ∧ j' ≠ .null := by
  have hfield : ∀ {name : Str} {i i' : Json}, FieldChange k.names name i i' j j' → j ≠ .null ∧ j' ≠ .null := by
    intro name i i' hc
    cases hc <;> simp
  cases h with
  | here => simp
  | one _ _ hc => exact hfield hc
  | list _ _ _ _ hc => exact hfield hc
  | map _ _ _ _ hc => exact hfield hc

/-! ## What the decoders notice -/

theorem typeOf_eq_some {k fields t} (h : typeOf k fields = some t) :
    fieldOf k.names fields "type" = some (.str t) := by
  unfold typeOf at h
  split at h
  · next s hs => rw [hs, Option.some.inj h]
  · cases h

theorem decodeAction_reacts_foreign {pre post}
    (htype : typeOf .action (pre ++ post) = some "direct".toList ∨ typeOf .action (pre ++ post) = some "block".toList)
    (hfresh : "egress".toList ∉ (pre ++ post).map Prod.fst) (v : Json) :
    Reacts (v ≠ .null) (decodeAction (.obj (pre ++ post)))
    (decodeAction (.obj (pre ++ ("egress".toList, v) :: post))) := by
  refine struct_add_reacts _ (by decide) hfresh v fun get' hget' hnone hother => ?_
  obtain ⟨t, ht, hget⟩ : ∃ t, (t = "direct" ∨ t = "block") ∧
      fieldOf (Kind.names .action) (pre ++ post) "type" = some (.str t) := by
    rcases htype with h | h
    · exact ⟨_, .inl rfl, typeOf_eq_some h⟩
    · exact ⟨_, .inr rfl, typeOf_eq_some h⟩
  rw [required_other hother (show "type".toList ≠ _ by decide)]
  refine .bind_right fun kind hkind => ?_
  rw [required, hget] at hkind
  obtain rfl : t = kind := Res.pure_eq_ok.1 hkind
  refine foreign_reacts text hnone hget' fun egress => ?_
  rcases ht with rfl | rfl
  · exact ⟨_, rfl⟩
  · exact ⟨_, rfl⟩

theorem decodeEgress_reacts_foreign_members {pre post}
    (htype : typeOf .egress (pre ++ post) = some "upstream".toList)
    (hfresh : "members".toList ∉ (pre ++ post).map Prod.fst) (v : Json) :
    Reacts (v ≠ .null) (decodeEgress (.obj (pre ++ post)))
    (decodeEgress (.obj (pre ++ ("members".toList, v) :: post))) := by
  refine struct_add_reacts _ (by decide) hfresh v fun get' hget' hnone hother => ?_
  simp (disch := decide) only [required_other hother, withDefault_other hother]
  refine .bind_right fun kind hkind => .bind_right fun backend _ => ?_
  rw [required, typeOf_eq_some htype] at hkind
  cases hkind
  exact foreign_reacts (list decodeChainMember) hnone hget' fun members => ⟨_, rfl⟩

theorem decodeEgress_reacts_foreign_backend {pre post}
    (htype : typeOf .egress (pre ++ post) = some "chain".toList)
    (hfresh : "backend".toList ∉ (pre ++ post).map Prod.fst) (v : Json) :
    Reacts (v ≠ .null) (decodeEgress (.obj (pre ++ post)))
    (decodeEgress (.obj (pre ++ ("backend".toList, v) :: post))) := by
  refine struct_add_reacts _ (by decide) hfresh v fun get' hget' hnone hother => ?_
  simp (disch := decide) only [required_other hother, withDefault_other hother]
  refine .bind_right fun kind hkind => ?_
  rw [required, typeOf_eq_some htype] at hkind
  cases hkind
  generalize withDefault (option (list decodeChainMember)) none (fieldOf (Kind.names .egress) (pre ++ post))
    "members" = members
  refine foreign_reacts decodeUpstream hnone hget' fun backend => ?_
  cases members with
  | error e => exact ⟨e, rfl⟩
  | ok members => exact ⟨_, rfl⟩

theorem Kind.decode_eq_struct (k : Kind) : ∃ build, k.decode = struct k.strict k.names build := by
  cases k with
  | snapshot => unfold Kind.decode decodeDocument; exact ⟨_, rfl⟩
  | user => unfold Kind.decode decodeUser; exact ⟨_, rfl⟩
  | frontendCred => unfold Kind.decode decodeFrontendCred; exact ⟨_, rfl⟩
  | policy => unfold Kind.decode decodePolicy; exact ⟨_, rfl⟩
  | route => unfold Kind.decode decodeRoute; exact ⟨_, rfl⟩
  | action => unfold Kind.decode decodeAction; exact ⟨_, rfl⟩
  | egress => unfold Kind.decode decodeEgress; exact ⟨_, rfl⟩
  | backend => unfold Kind.decode decodeUpstream; exact ⟨_, rfl⟩
  | chainMember => unfold Kind.decode decodeChainMember; exact ⟨_, rfl⟩
  | nodeOverride => unfold Kind.decode decodeNodeOverride; exact ⟨_, rfl⟩

theorem action_reacts {name v pre post}
    (hfresh : name ∉ (pre ++ post).map Prod.fst) (hdefined : name ∉ definedAction (pre ++ post))
    (hname : name ∈ Kind.names .action) :
    Reacts (v ≠ .null) (decodeAction (.obj (pre ++ post))) (decodeAction (.obj (pre ++ (name, v) :: post))) := by
  unfold definedAction at hdefined
  split at hdefined
  · next htype =>
    have hegress : name = "egress" := by
      rcases mem_cons.1 hname with h | h
      · exact absurd (by rw [h]; exact mem_cons_self) hdefined
      · exact mem_singleton.1 h
    rw [hegress] at hfresh ⊢
    exact decodeAction_reacts_foreign htype hfresh v
  · exact absurd hname hdefined

theorem egress_reacts {name v pre post}
    (hfresh : name ∉ (pre ++ post).map Prod.fst) (hdefined : name ∉ definedEgress (pre ++ post))
    (hname : name ∈ Kind.names .egress) :
    Reacts (v ≠ .null) (decodeEgress (.obj (pre ++ post))) (decodeEgress (.obj (pre ++ (name, v) :: post))) := by
  unfold definedEgress at hdefined
  have hcases : name = "type" ∨ name = "backend" ∨ name = "members" := by
    rcases mem_cons.1 hname with h | h
    · exact .inl h
    · rcases mem_cons.1 h with h | h
      · exact .inr (.inl h)
      · exact .inr (.inr (mem_singleton.1 h))
  split at hdefined
  · next htype =>
    rcases hcases with h | h | h
    · exact absurd (by rw [h]; exact mem_cons_self) hdefined
    · exact absurd (by rw [h]; exact mem_cons_of_mem _ mem_cons_self) hdefined
    · rw [h] at hfresh ⊢
      exact decodeEgress_reacts_foreign_members htype hfresh v
  · split at hdefined
    · next htype =>
      rcases hcases with h | h | h
      · exact absurd (by rw [h]; exact mem_cons_self) hdefined
      · rw [h] at hfresh ⊢
        exact decodeEgress_reacts_foreign_backend htype hfresh v
      · exact absurd (by rw [h]; exact mem_cons_of_mem _ mem_cons_self) hdefined
    · exact absurd hname hdefined

/-- An object reacts to a field that the schema does not define for it. -/
theorem here_reacts {a : Addition} {pre post : List (Str × Json)} (hfresh : a.name ∉ (pre ++ post).map Prod.fst)
    (hdefined : a.name ∉ defined a.kind (pre ++ post)) :
    Reacts a.noticed (a.kind.decode (.obj (pre ++ post)))
      (a.kind.decode (.obj (pre ++ (a.name, a.value) :: post))) := by
  by_cases hname : a.name ∈ a.kind.names
  · have hnull : a.kind.strict = true → (a.value ≠ .null ↔ a.noticed) := by
      intro hs
      simp [Addition.noticed, hname, hs]
    obtain ⟨k, name, v⟩ := a
    cases k with
    | action => exact (action_reacts hfresh hdefined hname).congr (hnull rfl)
    | egress => exact (egress_reacts hfresh hdefined hname).congr (hnull rfl)
    | _ => exact absurd hname hdefined
  · have hstrict : a.kind.strict = true ↔ a.noticed := by simp [Addition.noticed, hname]
    obtain ⟨build, hbuild⟩ := a.kind.decode_eq_struct
    rw [hbuild]
    exact (struct_extra_reacts _ hname pre post a.value).congr hstrict

theorem adds_reacts {a : Addition} {k : Kind} {J J' : Json} (h : Adds a k J J') :
    Reacts a.noticed (k.decode J) (k.decode J') := by
  -- the fields before the one that changes are read as before, and the rest is bound to it
  induction h with
  | here pre post hfresh hdefined => exact here_reacts hfresh hdefined
  | @one k k' name j j' J J' hmem hadds hc ih =>
    have hoption := option_reacts hadds.ne_null.1 hadds.ne_null.2 ih
    cases k <;> simp only [Kind.schema, mem_cons, Prod.mk.injEq, reduceCtorEq, and_false, false_or, or_false,
      not_mem_nil, Content.one.injEq] at hmem
    all_goals
      obtain ⟨rfl, rfl⟩ := hmem
      unfold Kind.decode
      refine struct_reacts _ (Kind.nodup_names _) (by decide) hc fun get get' hget hget' hother => ?_
      simp (disch := decide) only [required_other hother, withDefault_other hother]
      repeat refine .bind_right fun _ _ => ?_
      first
        | exact (withDefault_reacts hget hget' hoption).bind_left
        | exact (required_reacts hget hget' ih).bind_left
  | @list k k' name j j' J J' pre post hmem hadds hc ih =>
    have hlist := list_reacts ih pre post
    have hoption := option_reacts (by simp) (by simp) hlist
    cases k <;> simp only [Kind.schema, mem_cons, Prod.mk.injEq, reduceCtorEq, and_false, false_or, or_false,
      not_mem_nil, Content.list.injEq] at hmem
    all_goals
      obtain ⟨rfl, rfl⟩ := hmem
      unfold Kind.decode
      refine struct_reacts _ (Kind.nodup_names _) (by decide) hc fun get get' hget hget' hother => ?_
      simp (disch := decide) only [required_other hother, withDefault_other hother]
      repeat refine .bind_right fun _ _ => ?_
      first
        | exact (withDefault_reacts hget hget' hlist).bind_left
        | exact (withDefault_reacts hget hget' hoption).bind_left
  | @map k k' name key j j' J J' pre post hmem hadds hc ih =>
    have hmap := map_reacts ih pre post key
    cases k <;> simp only [Kind.schema, mem_cons, Prod.mk.injEq, reduceCtorEq, and_false, false_or, or_false,
      not_mem_nil, Content.map.injEq] at hmem
    rcases hmem with hmem | hmem | hmem | hmem
    all_goals
      obtain ⟨rfl, rfl⟩ := hmem
      unfold Kind.decode
      refine struct_reacts _ (Kind.nodup_names _) (by decide) hc fun get get' hget hget' hother => ?_
      simp -failIfUnchanged (disch := decide) only [required_other hother, withDefault_other hother]
      repeat refine .bind_right fun _ _ => ?_
      exact (withDefault_reacts hget hget' hmap).bind_left

theorem decodeSnapshot_reacts (readJson : List UInt8 → Res Json) {bytes bytes' doc doc'}
    (hdoc : readJson bytes = .ok doc) (hdoc' : readJson bytes' = .ok doc') {a}
    (h : Adds a .snapshot doc doc') :
    Reacts a.noticed (decodeSnapshot readJson bytes) (decodeSnapshot readJson bytes') := by
  unfold decodeSnapshot
  rw [hdoc, hdoc']
  have hreacts : Reacts a.noticed (decodeDocument doc) (decodeDocument doc') := adds_reacts h
  exact hreacts.bind_left

/-- A field that the schema does not define, added anywhere in a snapshot that
is accepted, makes it refused exactly when it is added to an object other than
a chain member, a front-end credential or a backend, and is not a `null` for
a field of another variant. -/
theorem decode_snapshot_refuses_iff (readJson : List UInt8 → Res Json) (bytes bytes' : List UInt8) (doc doc' : Json)
    (hdoc : readJson bytes = .ok doc) (hdoc' : readJson bytes' = .ok doc') (s : RawSnapshot)
    (hs : decodeSnapshot readJson bytes = .ok s) (a : Addition) (h : Adds a .snapshot doc doc') :
    (∃ e, decodeSnapshot readJson bytes' = .error e) ↔
      a.kind ∉ [.frontendCred, .backend, .chainMember] ∧ ¬ (a.name ∈ a.kind.names ∧ a.value = .null) := by
  have hreacts := decodeSnapshot_reacts readJson hdoc hdoc' h
  have hnoticed : a.noticed ↔
      a.kind ∉ [.frontendCred, .backend, .chainMember] ∧ ¬ (a.name ∈ a.kind.names ∧ a.value = .null) := by
    refine and_congr_left fun _ => ?_
    cases a.kind <;> decide
  rw [← hnoticed]
  refine ⟨fun ⟨e, he⟩ => ?_, hreacts.refused⟩
  by_contra hn
  rw [hreacts.ignored hn, hs] at he
  cases he

/-- A document with one egress, whose backend may have more fields. -/
def backendDocument (more : List (Str × Json)) : Json :=
  .obj [("schema_version", .int 1), ("version", .int 1), ("egresses", .obj [("out",
    .obj [("type", .str "upstream"), ("backend",
      .obj ([("kind".toList, .str "http".toList), ("addr".toList, .str "p:1".toList)] ++ more))])])]

def backendText (more : String) : List UInt8 :=
  utf8Bytes ("\x7b\"schema_version\":1,\"version\":1,\"egresses\":\x7b\"out\":\x7b\"type\":\"upstream\",\"backend\":" ++
    "\x7b\"kind\":\"http\",\"addr\":\"p:1\"" ++ more ++ "\x7d\x7d\x7d\x7d").toList

def readTable (table : List (List UInt8 × Json)) (bytes : List UInt8) : Res Json :=
  match table.find? (·.1 = bytes) with
  | some (_, doc) => .ok doc
  | none => .error "not read"

theorem readTable_first (bytes : List UInt8) (doc : Json) (table : List (List UInt8 × Json)) :
    readTable ((bytes, doc) :: table) bytes = .ok doc := by
  simp [readTable]

theorem readTable_second {bytes bytes'} (hne : bytes ≠ bytes') (doc doc' : Json)
    (table : List (List UInt8 × Json)) : readTable ((bytes, doc) :: (bytes', doc') :: table) bytes' = .ok doc' := by
  simp [readTable, hne]

/-- The two texts of the backend document, without and with a field that no
backend has. -/
def backendTable : List (List UInt8 × Json) :=
  [(backendText "", backendDocument []),
    (backendText ",\"require_tls\":true", backendDocument [("require_tls", .bool true)])]

/-- The smallest document, as text and with a field more. -/
def topLevelText (more : String) : List UInt8 :=
  utf8Bytes ("\x7b\"schema_version\":1,\"version\":1" ++ more ++ "\x7d").toList

def topLevelTable : List (List UInt8 × Json) :=
  [(topLevelText "", .obj [("schema_version", .int 1), ("version", .int 1)]),
    (topLevelText ",\"comment\":null",
      .obj [("schema_version", .int 1), ("version", .int 1), ("comment", .null)])]

/-- A field that no backend has is passed over. -/
theorem decode_snapshot_ignores_backend_field :
    Adds ⟨.backend, "require_tls", .bool true⟩ .snapshot (backendDocument [])
        (backendDocument [("require_tls", .bool true)]) ∧
      ∃ s, decodeSnapshot (readTable backendTable) (backendText "") = .ok s ∧
        decodeSnapshot (readTable backendTable) (backendText ",\"require_tls\":true") = .ok s := by
  have hadds : Adds ⟨.backend, "require_tls", .bool true⟩ .snapshot (backendDocument [])
      (backendDocument [("require_tls", .bool true)]) := by
    refine .map [] [] (show ("egresses".toList, Content.map .egress) ∈ Kind.schema .snapshot by decide +kernel) ?_
      (.obj [_, _] [])
    refine .one (show ("backend".toList, Content.one .backend) ∈ Kind.schema .egress by decide +kernel) ?_ (.obj [_] [])
    exact .here [_, _] [] (by decide +kernel) (by decide +kernel)
  have hok : (decodeSnapshot (readTable backendTable) (backendText "")).isOk = true := by decide +kernel
  obtain ⟨s, hs⟩ := Res.exists_of_isOk hok
  have hreacts := decodeSnapshot_reacts (readTable backendTable) (readTable_first _ _ _)
    (readTable_second (show backendText "" ≠ backendText ",\"require_tls\":true" by decide +kernel) _ _ _) hadds
  refine ⟨hadds, s, hs, ?_⟩
  rw [hreacts.ignored (by simp [Addition.noticed, Kind.strict]), hs]

theorem decode_snapshot_refuses_iff_top_level :
    ∃ e, decodeSnapshot (readTable topLevelTable) (topLevelText ",\"comment\":null") = .error e := by
  have hok : (decodeSnapshot (readTable topLevelTable) (topLevelText "")).isOk = true := by decide +kernel
  obtain ⟨s, hs⟩ := Res.exists_of_isOk hok
  refine (decode_snapshot_refuses_iff (readTable topLevelTable) _ _ _ _ (readTable_first _ _ _)
    (readTable_second (show topLevelText "" ≠ topLevelText ",\"comment\":null" by decide +kernel) _ _ _) s hs
    ⟨.snapshot, "comment", .null⟩ (.here [_, _] [] (by decide +kernel) (by decide +kernel))).2 ⟨?_, ?_⟩
  · decide
  · exact fun h => absurd h.1 (by decide +kernel)

end Rove.Model
