/-
Front-end credentials: the index of uuids that a compilation builds
(`compile_user` of `model.rs`) and the client it lets in (`frontend_user`, and
`authenticate_tuic` of `engine.rs`).

A compilation goes through the claims of all users, one protocol and uuid at a
time, and fails at the first that is taken. `compileChecked_isOk_iff`: it fails on
no other account of them, in whatever order; and `owner_iff`: the index that it
leaves gives each claim to its user.
-/
import Rove.Engine
import Rove.Model.Reference

namespace Rove.Model

open List Res
open Policy (LoadedBook)

abbrev FrontendIndex := HashMap Str (HashMap Str Str)

/-- A uuid as it is indexed. -/
def canonicalUuid (uuid : Str) : Str := Str.toAsciiLowercase (Str.trim uuid)

/-- What a credential claims for a user: a protocol and a uuid that is not blank. -/
def claimOf (name : Str) (e : Str × RawFrontendCred) : Option ((Str × Str) × Str) :=
  e.2.uuid.bind fun uuid => if canonicalUuid uuid = [] then none else some ((e.1, canonicalUuid uuid), name)

def claims (es : List (Str × RawUser)) : List ((Str × Str) × Str) :=
  es.flatMap fun e => e.2.frontends.entries.filterMap (claimOf e.1)

def FrontendIndex.owner (fi : FrontendIndex) (proto key : Str) : Option Str := (fi.get? proto).bind (·.get? key)

/-- An index of claims, no two of the same uuid on one protocol. -/
structure Indexes (fi : FrontendIndex) (cs : List ((Str × Str) × Str)) : Prop where
  nodup : (cs.map Prod.fst).Nodup
  owner : ∀ proto key name, fi.owner proto key = some name ↔ ((proto, key), name) ∈ cs

/-- A result that is there just if `P`, and then has the property. -/
def Succeeds {α : Type} (r : Res α) (P : Prop) (Q : α → Prop) : Prop :=
  match r with
  | .ok a => P ∧ Q a
  | .error _ => ¬ P

theorem Succeeds.bind {α β : Type} {r : Res α} {f : α → Res β} {P P' : Prop} {Q : α → Prop} {Q' : β → Prop}
    (h : Succeeds r P Q) (hP : P' → P) (hf : ∀ a, Q a → Succeeds (f a) P' Q') : Succeeds (r >>= f) P' Q' := by
  cases r with
  | error e => exact fun hP' => h (hP hP')
  | ok a => exact hf a h.2

theorem Succeeds.ok_bind {α β : Type} {r : Res α} {a : α} {f : α → Res β} {P : Prop} {Q : β → Prop} (hr : r = .ok a)
    (h : Succeeds (f a) P Q) : Succeeds (r >>= f) P Q := by
  rw [hr]
  exact h

theorem Succeeds.ensure_bind {β : Type} {c : Prop} [Decidable c] {e : String} {f : Unit → Res β}
    {P : Prop} {Q : β → Prop} (hc : c) (h : Succeeds (f ()) P Q) : Succeeds (ensure c e >>= f) P Q :=
  .ok_bind (ensure_eq_ok.2 hc) h

theorem Succeeds.isOk_iff {α : Type} {r : Res α} {P : Prop} {Q : α → Prop}
    (h : Succeeds r P Q) : r.isOk = true ↔ P := by
  cases r with
  | error e => exact ⟨fun hok => (by cases hok), fun hP => absurd hP h⟩
  | ok a => exact ⟨fun _ => h.1, fun _ => rfl⟩

theorem nodup_left {cs ds : List ((Str × Str) × Str)} (h : ((cs ++ ds).map Prod.fst).Nodup) : (cs.map Prod.fst).Nodup :=
  h.sublist ((sublist_append_left cs ds).map _)

theorem owner_insert (fi : FrontendIndex) (proto key name p k : Str) :
    FrontendIndex.owner (fi.insert proto (((fi.get? proto).getD ∅).insert key name)) p k =
      if (p, k) = (proto, key) then some name else fi.owner p k := by
  unfold FrontendIndex.owner
  rw [HashMap.get?_insert]
  by_cases hp : p = proto
  · subst hp
    rw [if_pos rfl, Option.bind_some, HashMap.get?_insert]
    by_cases hk : k = key
    · simp [hk]
    · rw [if_neg hk, if_neg (by simp [hk])]
      cases fi.get? p <;> rfl
  · rw [if_neg hp, if_neg (by simp [hp])]

theorem indexFrontend_succeeds {fi cs} (h : Indexes fi cs) (name proto : Str) (cred : RawFrontendCred) :
    Succeeds (indexFrontend name proto cred fi) ((cs ++ (claimOf name (proto, cred)).toList).map Prod.fst).Nodup
      fun fi' => Indexes fi' (cs ++ (claimOf name (proto, cred)).toList) := by
  have hkeep : claimOf name (proto, cred) = none → Succeeds (pure fi)
    ((cs ++ (claimOf name (proto, cred)).toList).map Prod.fst).Nodup
      fun fi' => Indexes fi' (cs ++ (claimOf name (proto, cred)).toList) := by
    intro hnone
    rw [hnone, Option.toList_none, append_nil]
    exact ⟨h.nodup, h⟩
  unfold indexFrontend
  cases huuid : cred.uuid with
  | none => exact hkeep (by simp [claimOf, huuid])
  | some uuid =>
    by_cases hblank : canonicalUuid uuid = []
    · simp only [show Str.toAsciiLowercase (Str.trim uuid) = [] from hblank, if_true]
      exact hkeep (by simp [claimOf, huuid, hblank])
    · have hclaim : claimOf name (proto, cred) = some ((proto, canonicalUuid uuid), name) := by
        simp [claimOf, huuid, hblank]
      have hown : ((fi.get? proto).getD ∅).get? (Str.toAsciiLowercase (Str.trim uuid)) =
        fi.owner proto (canonicalUuid uuid) := by
        unfold FrontendIndex.owner
        cases fi.get? proto <;> rfl
      simp only [hclaim, show ¬ Str.toAsciiLowercase (Str.trim uuid) = [] from hblank, if_false, hown]
      cases howner : fi.owner proto (canonicalUuid uuid) with
      | some prev =>
        -- the claim is there already
        intro hnd
        have hmem := mem_map_of_mem (f := Prod.fst) ((h.owner ..).1 howner)
        simp only [Option.toList_some, map_append, map_cons, map_nil, nodup_append] at hnd
        exact hnd.2.2 _ hmem _ (mem_singleton.2 rfl) rfl
      | none =>
        have hfree : (proto, canonicalUuid uuid) ∉ cs.map Prod.fst := by
          rintro hmem
          obtain ⟨⟨⟨p, k⟩, n⟩, hmem, heq⟩ := mem_map.1 hmem
          cases heq
          cases howner.symm.trans ((h.owner ..).2 hmem)
        have hnd : ((cs ++ (some ((proto, canonicalUuid uuid), name)).toList).map Prod.fst).Nodup := by
          simp only [Option.toList_some, map_append, map_cons, map_nil]
          refine nodup_append.2 ⟨h.nodup, nodup_singleton _, fun a ha b hb hab => hfree ?_⟩
          rwa [← mem_singleton.1 hb, ← hab]
        refine ⟨hnd, hnd, fun p k n => ?_⟩
        show FrontendIndex.owner (fi.insert proto (((fi.get? proto).getD ∅).insert (canonicalUuid uuid) name)) p k =
          _ ↔ _
        rw [owner_insert, Option.toList_some, mem_append, mem_singleton, ← h.owner]
        by_cases heq : (p, k) = (proto, canonicalUuid uuid)
        · cases heq
          simp [howner, eq_comm]
        · simp [heq]

theorem compileFrontends_succeeds (name : Str) {fi cs} (h : Indexes fi cs) (es : List (Str × RawFrontendCred))
    (frontends : HashMap Str FrontendCred) :
    Succeeds (compileFrontends name es frontends fi) ((cs ++ es.filterMap (claimOf name)).map Prod.fst).Nodup
      fun r => Indexes r.2 (cs ++ es.filterMap (claimOf name)) := by
  induction es generalizing fi cs frontends with
  | nil => exact ⟨by simpa using h.nodup, by simpa using h⟩
  | cons e es ih =>
    obtain ⟨proto, cred⟩ := e
    have happ : cs ++ List.filterMap (claimOf name) ((proto, cred) :: es) =
        cs ++ (claimOf name (proto, cred)).toList ++ es.filterMap (claimOf name) := by
      rw [append_assoc, filterMap_cons]
      cases claimOf name (proto, cred) <;> rfl
    rw [happ]
    exact (indexFrontend_succeeds h name proto cred).bind nodup_left fun fi' h' => ih h' _

/-- What a user must pass apart from its front-end credentials. -/
def UserFine (parseDate : Str → Res NaiveDate) (policies : HashMap Str RoutingPolicy)
    (name : Str) (u : RawUser) : Prop :=
  Str.trim u.policy ≠ [] ∧ policies.containsKey u.policy = true ∧
  ∃ expire, compileExpire parseDate name u.expire = .ok expire

variable {parseDate : Str → Res NaiveDate} {policies : HashMap Str RoutingPolicy}

theorem compileUsers_fine {es base fi r} (h : compileUsers parseDate policies es base fi = .ok r) :
    ∀ e ∈ es, UserFine parseDate policies e.1 e.2 := by
  induction es generalizing base fi with
  | nil => simp
  | cons e es ih =>
    obtain ⟨name, u⟩ := e
    obtain ⟨htrim, h⟩ := ensure_bind_eq_ok.1 h
    obtain ⟨hpol, h⟩ := ensure_bind_eq_ok.1 h
    obtain ⟨⟨user, fi₁⟩, huser, h⟩ := bind_eq_ok.1 h
    obtain ⟨expire, hexpire, -⟩ := bind_eq_ok.1 huser
    exact forall_mem_cons.2 ⟨⟨htrim, hpol, expire, hexpire⟩, ih h⟩

theorem compileUser_succeeds {name : Str} {u : RawUser} (hfine : UserFine parseDate policies name u)
    {fi cs} (h : Indexes fi cs) :
    Succeeds (compileUser parseDate name u fi) ((cs ++ u.frontends.entries.filterMap (claimOf name)).map Prod.fst).Nodup
      fun r => Indexes r.2 (cs ++ u.frontends.entries.filterMap (claimOf name)) := by
  obtain ⟨-, -, expire, hexpire⟩ := hfine
  exact .ok_bind hexpire <| (compileFrontends_succeeds name h u.frontends.entries ∅).bind id fun r hr => ⟨hr.nodup, hr⟩

theorem compileUsers_succeeds {es : List (Str × RawUser)}
    (hfine : ∀ e ∈ es, UserFine parseDate policies e.1 e.2) {fi cs} (h : Indexes fi cs) (base : HashMap Str User) :
    Succeeds (compileUsers parseDate policies es base fi) ((cs ++ claims es).map Prod.fst).Nodup
      fun r => Indexes r.2 (cs ++ claims es) := by
  induction es generalizing fi cs base with
  | nil => exact ⟨by simpa [claims] using h.nodup, by simpa [claims] using h⟩
  | cons e es ih =>
    obtain ⟨name, u⟩ := e
    obtain ⟨huser, hfine⟩ := forall_mem_cons.1 hfine
    have happ : cs ++ claims ((name, u) :: es) = cs ++ u.frontends.entries.filterMap (claimOf name) ++ claims es := by
      rw [append_assoc]
      rfl
    rw [happ]
    exact .ensure_bind huser.1 <| .ensure_bind huser.2.1 <|
      (compileUser_succeeds huser h).bind nodup_left fun r hr => ih hfine hr _

/-! ## The claims of a snapshot -/

/-- A user of the snapshot claims a uuid on a protocol. -/
def RawSnapshot.Claims (raw : RawSnapshot) (name proto key : Str) : Prop :=
  ∃ u cred uuid, raw.users.get? name = some u ∧ u.frontends.get? proto = some cred ∧ cred.uuid = some uuid ∧
    canonicalUuid uuid = key ∧ key ≠ []

theorem mem_claims {raw : RawSnapshot} {name proto key : Str} :
    ((proto, key), name) ∈ claims raw.users.entries ↔ raw.Claims name proto key := by
  simp only [claims, mem_flatMap, mem_filterMap, claimOf, Option.bind_eq_some_iff,
    Prod.exists, RawSnapshot.Claims, HashMap.get?_eq_some_iff]
  constructor
  · rintro ⟨n, u, hu, p, cred, hcred, uuid, huuid, heq⟩
    split at heq
    · cases heq
    · next hne =>
      cases heq
      exact ⟨u, cred, uuid, hu, hcred, huuid, rfl, hne⟩
  · rintro ⟨u, cred, uuid, hu, hcred, huuid, rfl, hne⟩
    exact ⟨name, u, hu, proto, cred, hcred, uuid, huuid, if_neg hne⟩

theorem claimOf_eq_some {name : Str} {e : Str × RawFrontendCred} {c : (Str × Str) × Str} (h : claimOf name e = some c) :
    c.1.1 = e.1 ∧ c.2 = name := by
  obtain ⟨uuid, -, h⟩ := Option.bind_eq_some_iff.1 h
  split at h
  · cases h
  · cases h
    exact ⟨rfl, rfl⟩

/-- Two claims of one uuid are of two users. -/
theorem nodup_claims_iff (raw : RawSnapshot) : ((claims raw.users.entries).map Prod.fst).Nodup ↔
    ∀ name name' proto key, raw.Claims name proto key → raw.Claims name' proto key → name = name' := by
  constructor
  · intro hnd name name' proto key h h'
    exact (Prod.mk.inj (inj_on_of_nodup_map hnd (mem_claims.2 h) (mem_claims.2 h') rfl)).2
  · intro hone
    have hnd : (claims raw.users.entries).Nodup := by
      refine nodup_flatMap.2 ⟨fun e _ => ?_, ?_⟩
      · refine pairwise_filterMap.2 ((pairwise_map.1 e.2.frontends.nodup).imp fun hne c hc c' hc' heq => hne ?_)
        rw [← (claimOf_eq_some hc).1, ← (claimOf_eq_some hc').1, heq]
      · refine (pairwise_map.1 raw.users.nodup).imp fun hne c hc hc' => hne ?_
        obtain ⟨_, -, hc⟩ := mem_filterMap.1 hc
        obtain ⟨_, -, hc'⟩ := mem_filterMap.1 hc'
        rw [← (claimOf_eq_some hc).2, ← (claimOf_eq_some hc').2]
    refine List.Nodup.map_on ?_ hnd
    rintro ⟨⟨p, k⟩, n⟩ hc ⟨⟨p', k'⟩, n'⟩ hc' heq
    cases heq
    rw [hone n n' p k (mem_claims.1 hc) (mem_claims.1 hc')]

def RawUser.withoutFrontends (u : RawUser) : RawUser := { u with frontends := ∅ }

/-- The snapshot without front-end credentials, which has every other check to pass. -/
def RawSnapshot.withoutFrontends (raw : RawSnapshot) : RawSnapshot :=
  { raw with users := ⟨raw.users.entries.map fun e => (e.1, e.2.withoutFrontends), by
      rw [map_map]
      exact raw.users.nodup⟩ }

section
variable (parseIpNet : Str → Option IpNet) (parseDate : Str → Res NaiveDate) (o : IterOrder)
  (raw : RawSnapshot) (nodeId : Str)
  (book : Option LoadedBook)

theorem compileChecked_isOk_iff
    (hother : (compileChecked parseIpNet parseDate o raw.withoutFrontends nodeId book).isOk = true) :
    (compileChecked parseIpNet parseDate o raw nodeId book).isOk = true ↔
    ((claims raw.users.entries).map Prod.fst).Nodup := by
  obtain ⟨⟨s, book'⟩, h⟩ := exists_of_isOk hother
  obtain ⟨hschema, h⟩ := ensure_bind_eq_ok.1 h
  obtain ⟨hversion, h⟩ := ensure_bind_eq_ok.1 h
  obtain ⟨husers, h⟩ := ensure_bind_eq_ok.1 h
  obtain ⟨hpolicies, h⟩ := ensure_bind_eq_ok.1 h
  obtain ⟨hoverrides, h⟩ := ensure_bind_eq_ok.1 h
  obtain ⟨rawEgresses, hnode, h⟩ := bind_eq_ok.1 h
  obtain ⟨hegresses, h⟩ := ensure_bind_eq_ok.1 h
  obtain ⟨egresses, hegr, h⟩ := bind_eq_ok.1 h
  obtain ⟨⟨policies, st⟩, hpol, h⟩ := bind_eq_ok.1 h
  obtain ⟨r, hcompile, -⟩ := bind_eq_ok.1 h
  have hfine : ∀ e ∈ raw.users.entries, UserFine parseDate policies e.1 e.2 := fun e he =>
    compileUsers_fine hcompile (e.1, e.2.withoutFrontends) (mem_map_of_mem he)
  have hlen : raw.users.len ≤ maxSnapshotUsers := by simpa [RawSnapshot.withoutFrontends, HashMap.len] using husers
  have hempty : Indexes ∅ [] := ⟨nodup_nil, by simp [FrontendIndex.owner]⟩
  have hall : Succeeds (compileChecked parseIpNet parseDate o raw nodeId book)
    ((claims raw.users.entries).map Prod.fst).Nodup
      fun _ => True :=
    .ensure_bind hschema <| .ensure_bind hversion <| .ensure_bind hlen <| .ensure_bind hpolicies <|
      .ensure_bind hoverrides <|
      .ok_bind hnode <| .ensure_bind hegresses <| .ok_bind hegr <| .ok_bind hpol <|
        (compileUsers_succeeds hfine hempty ∅).bind id fun r hr => ⟨hr.nodup, trivial⟩
  exact hall.isOk_iff

end

/-! ## The compiled users -/

def Snapshot.frontendUser (s : Snapshot) (protocol key : Str) : Option (Str × User) :=
  (FrontendIndex.owner s.frontendIndex protocol (Str.toAsciiLowercase key)).bind
  fun name => (s.users.get? name).map (name, ·)

/-- A user of the snapshot has a uuid on a protocol. -/
def Snapshot.Owns (s : Snapshot) (name proto key : Str) : Prop :=
  ∃ user cred uuid, s.users.get? name = some user ∧ user.frontends.get? proto = some cred ∧ cred.uuid = some uuid ∧
    canonicalUuid uuid = key

theorem compileFrontends_frontends {name es frontends fi r} (h : compileFrontends name es frontends fi = .ok r) :
    r.1 = (es.map fun e => (e.1, FrontendCred.mk e.2.uuid e.2.password)).foldl
    (fun m e => m.insert e.1 e.2) frontends := by
  induction es generalizing frontends fi with
  | nil => rw [← pure_eq_ok.1 h]; rfl
  | cons e es ih =>
    obtain ⟨fi', -, h⟩ := bind_eq_ok.1 h
    exact ih h

theorem get?_frontends {name u fi user fi'} (h : compileUser parseDate name u fi = .ok (user, fi')) (proto : Str) :
    user.frontends.get? proto = (u.frontends.get? proto).map fun c => ⟨c.uuid, c.password⟩ := by
  obtain ⟨expire, -, h⟩ := bind_eq_ok.1 h
  obtain ⟨⟨frontends, fi₁⟩, hfrontends, h⟩ := bind_eq_ok.1 h
  cases h
  have hkeys :
      ((u.frontends.entries.map fun e => (e.1, FrontendCred.mk e.2.uuid e.2.password)).map Prod.fst).Nodup := by
    rw [map_map]
    exact u.frontends.nodup
  refine Option.ext fun cred => ?_
  show frontends.get? proto = some cred ↔ _
  rw [show frontends = _ from compileFrontends_frontends hfrontends, HashMap.get?_foldl_insert_iff hkeys, mem_map]
  simp [HashMap.get?_eq_some_iff]

theorem owner_iff {parseIpNet o raw nodeId book s book'}
    (h : compileChecked parseIpNet parseDate o raw nodeId book = .ok (s, book')) {proto key : Str}
    (hkey : key ≠ []) (name : Str) :
    FrontendIndex.owner s.frontendIndex proto key = some name ↔ s.Owns name proto key := by
  obtain ⟨_, _, _, -, -, -, husers, -⟩ := compileChecked_eq_ok h
  have hempty : Indexes ∅ [] := ⟨nodup_nil, by simp [FrontendIndex.owner]⟩
  have hindexes : Indexes s.frontendIndex (claims raw.users.entries) := by
    have hsucceeds := compileUsers_succeeds (compileUsers_fine husers) hempty ∅
    rw [husers] at hsucceeds
    exact hsucceeds.2
  have hfilled := compileUsers_spec raw.users.nodup husers
  rw [hindexes.owner, mem_claims]
  constructor
  · rintro ⟨u, cred, uuid, hu, hcred, huuid, heq, -⟩
    obtain ⟨user, huser, ⟨_, _, hcompile⟩, -⟩ := hfilled.exists_get? hu
    exact ⟨user, _, uuid, huser, by rw [get?_frontends hcompile, hcred]; rfl, huuid, heq⟩
  · rintro ⟨user, cred, uuid, huser, hcred, huuid, heq⟩
    obtain ⟨u, hu, ⟨_, _, hcompile⟩, -⟩ := hfilled.get?_eq_some huser
    rw [get?_frontends hcompile, Option.map_eq_some_iff] at hcred
    obtain ⟨cred, hcred, rfl⟩ := hcred
    exact ⟨u, cred, uuid, hu, hcred, huuid, heq, hkey⟩

end Rove.Model

/-! ## Authentication -/

namespace Rove.Engine

open Model Policy

/-- Sixteen bytes as text; any other number of them is none. -/
def formatUuid (bytes : Bytes) : Option Str :=
  if bytes.length ≠ 16 then none
  else
    let hex := bytes.flatMap fun b => [Nat.digitChar (b.toNat / 16), Nat.digitChar (b.toNat % 16)]
    some (hex.take 8 ++ '-' :: (hex.drop 8).take 4 ++ '-' :: (hex.drop 12).take 4 ++ '-' :: (hex.drop 16).take 4 ++
      '-' :: (hex.drop 20).take 12)

def tuicTokenLen : Nat := 32

/-- `authenticate_tuic`, under the snapshot that is served today. -/
def authenticateTuic (snap : Snapshot) (today : NaiveDate) (uuidBytes token : Bytes)
    (exporter : Bytes → Bytes → Nat → Option Bytes) : Except EngineError (Str × AuthOk) :=
  if token.length ≠ tuicTokenLen then .error .authFailed
  else
    match formatUuid uuidBytes with
    | none => .error .authFailed
    | some uuid =>
      match snap.frontendUser "tuic" uuid with
      | none => .error .authFailed
      | some (username, user) =>
        match (user.frontends.get? "tuic").bind (·.password) with
        | none => .error .authFailed
        | some password =>
          match exporter uuidBytes (utf8Bytes password) tuicTokenLen with
          | none => .error .authFailed
          | some expected =>
            if !Util.constantTimeEqBytes expected token then .error .authFailed
            else if user.expire.any today.isAfter then .error .expired
            else .ok (username, ⟨user.upRate, user.downRate, user.maxConnections⟩)

theorem toAsciiLowercase_formatUuid {bytes uuid} (h : formatUuid bytes = some uuid) :
    Str.toAsciiLowercase uuid = uuid ∧ uuid ≠ [] := by
  have hdigit : ∀ n < 16, (Nat.digitChar n).toLower = Nat.digitChar n := by decide
  unfold formatUuid at h
  split at h
  · cases h
  · have hhex : ∀ c ∈ bytes.flatMap fun b => [Nat.digitChar (b.toNat / 16), Nat.digitChar (b.toNat % 16)],
      c.toLower = c := by
      intro c hc
      obtain ⟨b, -, hc⟩ := List.mem_flatMap.1 hc
      have := b.toNat_lt
      rcases List.mem_pair.1 hc with rfl | rfl
      · exact hdigit _ (by omega)
      · exact hdigit _ (by omega)
    generalize (bytes.flatMap fun b => [Nat.digitChar (b.toNat / 16), Nat.digitChar (b.toNat % 16)]) = hex at h hhex
    have htake : ∀ i n, ((hex.drop i).take n).map Char.toLower = (hex.drop i).take n := by
      intro i n
      rw [List.map_congr_left fun c hc => hhex c (List.mem_of_mem_drop (List.mem_of_mem_take hc)), List.map_id']
    have hzero := htake 0 8
    rw [List.drop_zero] at hzero
    cases h
    refine ⟨?_, by simp⟩
    simp only [Str.toAsciiLowercase, List.map_append, List.map_cons, htake, hzero]
    rfl

/-- The snapshot has just one user with this uuid for TUIC. -/
def OnlyOwner (s : Snapshot) (uuid : Bytes) (name : Str) : Prop :=
  ∃ text, formatUuid uuid = some text ∧ ∀ name', s.Owns name' "tuic" text ↔ name' = name

theorem authenticateTuic_isOk_iff {snap today uuid token exporter text name} (htext : formatUuid uuid = some text) :
    (∃ auth, authenticateTuic snap today uuid token exporter = .ok (name, auth)) ↔
      token.length = tuicTokenLen ∧ ∃ user password, snap.frontendUser "tuic" text = some (name, user) ∧
        (user.frontends.get? "tuic").bind (·.password) = some password ∧ user.expire.any today.isAfter = false ∧
        exporter uuid (utf8Bytes password) tuicTokenLen = some token := by
  unfold authenticateTuic
  by_cases hlen : token.length = tuicTokenLen
  · rw [if_neg (not_ne_iff.2 hlen), htext]
    dsimp only
    generalize snap.frontendUser "tuic" text = found
    cases found with
    | none => simp
    | some found =>
      obtain ⟨n, user⟩ := found
      dsimp only
      cases hpassword : (user.frontends.get? "tuic").bind (·.password) with
      | none =>
        constructor
        · rintro ⟨_, h⟩
          cases h
        · rintro ⟨-, _, _, hfound, hsome, -⟩
          cases hfound
          cases hpassword.symm.trans hsome
      | some password =>
        cases hexporter : exporter uuid (utf8Bytes password) tuicTokenLen with
        | none => simp_all
        | some expected =>
          have hiff := @Util.constantTimeEqBytes_iff expected token
          cases heq : Util.constantTimeEqBytes expected token <;>
            cases hexpire : user.expire.any today.isAfter <;> simp_all
  · simp [hlen]

theorem frontendUser_iff {parseIpNet parseDate o raw nodeId book s book'}
    (h : compileChecked parseIpNet parseDate o raw nodeId book = .ok (s, book')) {uuid text}
    (htext : formatUuid uuid = some text)
    (name : Str) (user : User) :
    s.frontendUser "tuic" text = some (name, user) ↔ OnlyOwner s uuid name ∧ s.users.get? name = some user := by
  obtain ⟨hlower, hne⟩ := toAsciiLowercase_formatUuid htext
  have hone : OnlyOwner s uuid name ↔ FrontendIndex.owner s.frontendIndex "tuic" text = some name := by
    constructor
    · rintro ⟨t, ht, hiff⟩
      obtain rfl := Option.some.inj (ht.symm.trans htext)
      exact (owner_iff h hne name).2 ((hiff name).2 rfl)
    · intro howner
      refine ⟨text, htext, fun name' => ?_⟩
      rw [← owner_iff h hne, howner, Option.some_inj, eq_comm]
  rw [hone, Snapshot.frontendUser, hlower, Option.bind_eq_some_iff]
  constructor
  · rintro ⟨n, hn, hmap⟩
    obtain ⟨u, hu, heq⟩ := Option.map_eq_some_iff.1 hmap
    cases heq
    exact ⟨hn, hu⟩
  · rintro ⟨howner, huser⟩
    exact ⟨name, howner, by rw [huser]; rfl⟩

/-- For every snapshot that passes every other check, whatever the order its maps are
iterated in, a compilation fails just if two users claim one uuid on one
protocol. And a client with a uuid and a token of 32 bytes is let in as a user just if
this is the one user with the uuid, is not expired, and the exporter's value for
the uuid and the user's password is the token. -/
theorem uuid_unique_and_authenticates (parseIpNet : Str → Option IpNet)
    (parseDate : Str → Res NaiveDate) (o : IterOrder) (raw : RawSnapshot) (nodeId : Str) (book : Option LoadedBook) :
    ((compileChecked parseIpNet parseDate o raw.withoutFrontends nodeId book).isOk = true →
      ((compileChecked parseIpNet parseDate o raw nodeId book).isOk = false ↔
        ∃ name name' proto key, name ≠ name' ∧ raw.Claims name proto key ∧ raw.Claims name' proto key)) ∧
    ∀ s book', compileChecked parseIpNet parseDate o raw nodeId book = .ok (s, book') →
      ∀ (today : NaiveDate) (uuid token : Bytes) (exporter : Bytes → Bytes → Nat → Option Bytes),
        uuid.length = 16 → ∀ name,
        (∃ auth, authenticateTuic s today uuid token exporter = .ok (name, auth)) ↔
          token.length = tuicTokenLen ∧ OnlyOwner s uuid name ∧ ∃ user password, s.users.get? name = some user ∧
            (user.frontends.get? "tuic").bind (·.password) = some password ∧ user.expire.any today.isAfter = false ∧
            exporter uuid (utf8Bytes password) tuicTokenLen = some token := by
  refine ⟨fun hother => ?_, fun s book' h today uuid token exporter hlen name => ?_⟩
  · rw [← Bool.not_eq_true, compileChecked_isOk_iff parseIpNet parseDate o raw nodeId book hother, nodup_claims_iff]
    push Not
    exact ⟨fun ⟨n, n', p, k, hn, hn', hne⟩ => ⟨n, n', p, k, hne, hn, hn'⟩,
      fun ⟨n, n', p, k, hne, hn, hn'⟩ => ⟨n, n', p, k, hn, hn', hne⟩⟩
  · have htext : formatUuid uuid = some _ := if_neg (not_ne_iff.2 hlen)
    rw [authenticateTuic_isOk_iff htext]
    simp only [frontendUser_iff h htext]
    refine and_congr_right fun _ => ⟨?_, ?_⟩
    · rintro ⟨user, password, ⟨hone, huser⟩, hrest⟩
      exact ⟨hone, user, password, huser, hrest⟩
    · rintro ⟨hone, user, password, huser, hrest⟩
      exact ⟨user, password, ⟨hone, huser⟩, hrest⟩

/-- One user, with a uuid of zeros. -/
def tuicSnapshot : RawSnapshot where
  schemaVersion := 1
  version := 7
  users := ⟨[("u", { password := "p", policy := "main", frontends :=
    ⟨[("tuic", ⟨some "00000000-0000-0000-0000-000000000000 ", some "secret"⟩)], by simp⟩ })], by simp⟩
  routingPolicies := ⟨[("main", {})], by simp⟩

theorem tuicSnapshot_compiles : ∃ s book user,
    compileChecked (fun _ => none) (fun _ => .error "") .keep tuicSnapshot [] none = .ok (s, book) ∧
      OnlyOwner s (List.replicate 16 0) "u".toList ∧ s.users.get? "u".toList = some user ∧
      (user.frontends.get? "tuic".toList).bind (·.password) = some "secret".toList ∧ user.expire = none := by
  obtain ⟨⟨s, book⟩, h⟩ := Res.exists_of_isOk (show (compileChecked (fun _ => none) (fun _ => .error "") .keep
    tuicSnapshot [] none).isOk = true by decide +kernel)
  have htext : formatUuid (List.replicate 16 0) = some "00000000-0000-0000-0000-000000000000".toList := by
    decide +kernel
  have hfound : (match compileChecked (fun _ => none) (fun _ => .error "") .keep tuicSnapshot [] none with
      | .ok (s, _) => (s.frontendUser "tuic".toList "00000000-0000-0000-0000-000000000000".toList).map
          fun (name, user) =>
        (name, (user.frontends.get? "tuic".toList).bind (·.password), user.expire.isNone)
      | .error _ => none) = some ("u".toList, some "secret".toList, true) := by
    decide +kernel
  rw [h] at hfound
  obtain ⟨⟨name, user⟩, hfound, heq⟩ := Option.map_eq_some_iff.1 hfound
  obtain ⟨rfl, hrest⟩ := Prod.mk.inj heq
  obtain ⟨hpassword, hexpire⟩ := Prod.mk.inj hrest
  obtain ⟨hone, huser⟩ := (frontendUser_iff h htext _ user).1 hfound
  exact ⟨s, book, user, h, hone, huser, hpassword, Option.isNone_iff_eq_none.1 hexpire⟩

theorem uuid_unique_and_authenticates_zeros : ∃ s book auth,
    compileChecked (fun _ => none) (fun _ => .error "") .keep tuicSnapshot [] none = .ok (s, book) ∧
      authenticateTuic s ⟨2026, 1, 1⟩ (List.replicate 16 0) (List.replicate 32 0)
        (fun _ _ n => some (List.replicate n 0)) =
        .ok ("u", auth) := by
  obtain ⟨s, book, user, h, hone, huser, hpassword, hexpire⟩ := tuicSnapshot_compiles
  obtain ⟨auth, hauth⟩ := ((uuid_unique_and_authenticates _ _ _ _ _ _).2 s book h ⟨2026, 1, 1⟩
    (List.replicate 16 0) (List.replicate 32 0) (fun _ _ n => some (List.replicate n 0)) rfl "u").2
    ⟨rfl, hone, user, _, huser, hpassword, by rw [hexpire]; rfl, rfl⟩
  exact ⟨s, book, auth, h, hauth⟩

/-- An exporter that gives no bytes, and a client that presents them. -/
theorem short_token_refused : ∃ s book user,
    compileChecked (fun _ => none) (fun _ => .error "") .keep tuicSnapshot [] none = .ok (s, book) ∧
      OnlyOwner s (List.replicate 16 0) "u" ∧ s.users.get? "u" = some user ∧
      (user.frontends.get? "tuic").bind (·.password) = some "secret".toList ∧ user.expire = none ∧
      authenticateTuic s ⟨2026, 1, 1⟩ (List.replicate 16 0) [] (fun _ _ _ => some []) = .error .authFailed := by
  obtain ⟨s, book, user, h, hone, huser, hpassword, hexpire⟩ := tuicSnapshot_compiles
  exact ⟨s, book, user, h, hone, huser, hpassword, hexpire, rfl⟩

end Rove.Engine
