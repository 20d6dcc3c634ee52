/-
JSON values and decoders over them, in the manner of derived decoders: a
struct is read from an object by field name, or from an array by position;
a map takes any key, and the last entry of a key counts.

`Reacts` says what a change to a document does to what is decoded from it:
it is refused, or nothing comes of it. The lemmas carry a reaction from the
place of the change to the whole document.
-/
import Rove.Base.HashMap
import Rove.Base.Str
import Rove.Base.Result

namespace Rove

open List

/-- A JSON value. Numbers are integers, or texts with a fraction or exponent;
an object keeps its fields in order, with repetitions. -/
inductive Json where
  | null
  | bool (b : Bool)
  | int (n : Int)
  | float (text : Str)
  | str (s : Str)
  | arr (xs : List Json)
  | obj (fields : List (Str × Json))

/-- A decoder: a value, or why there is none. -/
abbrev Decoder (α : Type) := Json → Res α

namespace Decoder

variable {α β : Type}

def text : Decoder Str
  | .str s => pure s
  | _ => throw "invalid type, expected a string"

def flag : Decoder Bool
  | .bool b => pure b
  | _ => throw "invalid type, expected a boolean"

def unsigned (bits : Nat) : Decoder (BitVec bits)
  | .int n =>
    if 0 ≤ n ∧ n.toNat < 2 ^ bits then pure (BitVec.ofNat bits n.toNat) else throw "invalid value, integer out of range"
  | _ => throw "invalid type, expected an integer"

/-- A value or `null`. -/
def option (d : Decoder α) : Decoder (Option α)
  | .null => pure none
  | j => some <$> d j

def elements (d : Decoder α) : List Json → Res (List α)
  | [] => pure []
  | j :: js => do
    let a ← d j
    let as ← elements d js
    pure (a :: as)

def list (d : Decoder α) : Decoder (List α)
  | .arr xs => elements d xs
  | _ => throw "invalid type, expected a sequence"

/-- The entries of a map, put in one by one. -/
def entries (d : Decoder α) : List (Str × Json) → HashMap Str α → Res (HashMap Str α)
  | [], m => pure m
  | (key, j) :: es, m => do
    let a ← d j
    entries d es (m.insert key a)

def map (d : Decoder α) : Decoder (HashMap Str α)
  | .obj fields => entries d fields ∅
  | _ => throw "invalid type, expected a map"

def fieldOf (names : List Str) (fields : List (Str × Json)) (name : Str) : Option Json :=
  if name ∈ names then (fields.find? (·.1 = name)).map (·.2) else none

def required (d : Decoder α) (get : Str → Option Json) (name : Str) : Res α :=
  match get name with
  | some j => d j
  | none => throw "missing field"

def withDefault (d : Decoder α) (default : α) (get : Str → Option Json) (name : Str) : Res α :=
  match get name with
  | some j => d j
  | none => pure default

/-- A struct with these fields. A strict one refuses every other field, a lax
one passes it over; neither takes a field twice. -/
def struct (strict : Bool) (names : List Str) (build : (Str → Option Json) → Res α) : Decoder α
  | .obj fields => do
    ensure (strict = false ∨ ∀ f ∈ fields, f.1 ∈ names) "unknown field"
    ensure ((fields.map Prod.fst).filter (· ∈ names)).Nodup "duplicate field"
    build (fieldOf names fields)
  | .arr xs => do
    ensure (xs.length ≤ names.length) "trailing elements"
    build (fieldOf names (names.zip xs))
  | _ => throw "invalid type, expected a struct"

end Decoder

/-! ## Reactions -/

/-- What a change does to a result: it becomes an error if the change is
noticed, and stays as it is if not. -/
structure Reacts {α : Type} (noticed : Prop) (before after : Res α) : Prop where
  refused : noticed → ∃ e, after = .error e
  ignored : ¬ noticed → after = before

namespace Reacts

variable {α β : Type} {noticed : Prop}

theorem congr {before after : Res α} {noticed' : Prop} (h : Reacts noticed before after) (hiff : noticed ↔ noticed') :
    Reacts noticed' before after :=
  ⟨fun hn => h.refused (hiff.2 hn), fun hn => h.ignored fun hn' => hn (hiff.1 hn')⟩

theorem of_error {before : Res α} {e : String} (h : before = .error e) : Reacts noticed before before :=
  ⟨fun _ => ⟨e, h⟩, fun _ => rfl⟩

theorem bind_left {x y : Res α} {f : α → Res β} (h : Reacts noticed x y) : Reacts noticed (x >>= f) (y >>= f) := by
  refine ⟨fun hn => ?_, fun hn => by rw [h.ignored hn]⟩
  obtain ⟨e, he⟩ := h.refused hn
  exact ⟨e, by rw [he]; rfl⟩

theorem bind_right {x : Res α} {f g : α → Res β} (h : ∀ a, x = .ok a → Reacts noticed (f a) (g a)) :
    Reacts noticed (x >>= f) (x >>= g) := by
  cases x with
  | error e => exact of_error rfl
  | ok a => exact h a rfl

theorem map {x y : Res α} {f : α → β} (h : Reacts noticed x y) : Reacts noticed (f <$> x) (f <$> y) := by
  refine ⟨fun hn => ?_, fun hn => by rw [h.ignored hn]⟩
  obtain ⟨e, he⟩ := h.refused hn
  exact ⟨e, by rw [he]; rfl⟩

end Reacts

namespace Decoder

variable {α : Type} {noticed : Prop} {d : Decoder α} {j j' : Json}

theorem list_reacts (h : Reacts noticed (d j) (d j')) (pre post : List Json) :
    Reacts noticed (list d (.arr (pre ++ j :: post))) (list d (.arr (pre ++ j' :: post))) := by
  show Reacts noticed (elements d (pre ++ j :: post)) (elements d (pre ++ j' :: post))
  induction pre with
  | nil => exact h.bind_left
  | cons x pre ih => exact .bind_right fun _ _ => ih.bind_left

theorem map_reacts (h : Reacts noticed (d j) (d j')) (pre post : List (Str × Json)) (key : Str) :
    Reacts noticed (map d (.obj (pre ++ (key, j) :: post))) (map d (.obj (pre ++ (key, j') :: post))) := by
  suffices hm : ∀ m, Reacts noticed (entries d (pre ++ (key, j) :: post) m)
    (entries d (pre ++ (key, j') :: post) m) from
    hm ∅
  induction pre with
  | nil => exact fun m => h.bind_left
  | cons x pre ih => exact fun m => .bind_right fun a _ => ih (m.insert x.1 a)

theorem option_reacts (hj : j ≠ .null) (hj' : j' ≠ .null) (h : Reacts noticed (d j) (d j')) :
    Reacts noticed (option d j) (option d j') := by
  have hsome : ∀ k : Json, k ≠ .null → option d k = some <$> d k := by
    intro k hk
    cases k with
    | null => exact absurd rfl hk
    | _ => rfl
  rw [hsome j hj, hsome j' hj']
  exact h.map

/-- An optional field that must not be set: a `null` in its place changes
nothing, anything else is an error. -/
theorem foreign_reacts {β : Type} (d : Decoder α) {get get' : Str → Option Json} {name : Str} {v : Json}
    (hget : get name = none) (hget' : get' name = some v) {f : Option α → Res β}
    (hf : ∀ a, ∃ e, f (some a) = .error e) :
    Reacts (v ≠ .null) (withDefault (option d) none get name >>= f) (withDefault (option d) none get' name >>= f) := by
  have hset : ∀ x : Res α, ∃ e, ((some <$> x) >>= f) = .error e := by
    intro x
    cases x with
    | error e => exact ⟨e, rfl⟩
    | ok a => exact hf a
  simp only [withDefault, hget, hget']
  cases v with
  | null => exact ⟨fun h => absurd rfl h, fun _ => rfl⟩
  | _ => exact ⟨fun _ => hset _, fun h => absurd (by simp) h⟩

theorem required_reacts {get get' name} (hget : get name = some j)
    (hget' : get' name = some j') (h : Reacts noticed (d j) (d j')) :
    Reacts noticed (required d get name) (required d get' name) := by
  simpa only [required, hget, hget'] using h

theorem required_other {get get' : Str → Option Json} {name n : Str}
    (h : ∀ n, n ≠ name → get' n = get n) (hn : n ≠ name) (d : Decoder α) : required d get' n = required d get n := by
  rw [required, required, h n hn]

theorem withDefault_other {get get' : Str → Option Json} {name n : Str} (h : ∀ n, n ≠ name → get' n = get n)
    (hn : n ≠ name) (d : Decoder α) (default : α) : withDefault d default get' n = withDefault d default get n := by
  rw [withDefault, withDefault, h n hn]

theorem withDefault_reacts {get get' name default} (hget : get name = some j)
    (hget' : get' name = some j') (h : Reacts noticed (d j) (d j')) :
    Reacts noticed (withDefault d default get name) (withDefault d default get' name) := by
  simpa only [withDefault, hget, hget'] using h

/-! ## Changes to a struct -/

/-- One field of a struct changes, by name in an object or by position in an
array. -/
inductive FieldChange (names : List Str) (name : Str) (j j' : Json) : Json → Json → Prop
  | obj (pre post : List (Str × Json)) :
    FieldChange names name j j' (.obj (pre ++ (name, j) :: post)) (.obj (pre ++ (name, j') :: post))
  | arr (pre post : List Json) : names[pre.length]? = some name →
    FieldChange names name j j' (.arr (pre ++ j :: post)) (.arr (pre ++ j' :: post))

theorem fieldOf_self {names name pre} (hname : name ∈ names)
    (hpre : name ∉ pre.map Prod.fst) (post : List (Str × Json)) :
    fieldOf names (pre ++ (name, j) :: post) name = some j := by
  have hnone : pre.find? (·.1 = name) = none := by
    refine find?_eq_none.2 fun f hf h => hpre ?_
    exact mem_map.2 ⟨f, hf, by simpa using h⟩
  simp [fieldOf, hname, find?_append, hnone]

theorem fieldOf_of_ne {names name n} (hne : n ≠ name) (pre post : List (Str × Json)) :
    fieldOf names (pre ++ (name, j') :: post) n = fieldOf names (pre ++ (name, j) :: post) n := by
  simp [fieldOf, find?_append, hne.symm]

theorem zip_around {names : List Str} {name : Str} {pre : List Json} (h : names[pre.length]? = some name)
    (post : List Json) : names.zip (pre ++ j :: post) =
      (names.take pre.length).zip pre ++ (name, j) :: (names.drop (pre.length + 1)).zip post := by
  obtain ⟨hlt, hget⟩ := List.getElem?_eq_some_iff.1 h
  have hnames : names = names.take pre.length ++ name :: names.drop (pre.length + 1) := by
    rw [← hget, ← drop_eq_getElem_cons hlt, take_append_drop]
  have hlen : (names.take pre.length).length = pre.length := by simp; omega
  conv_lhs => rw [hnames]
  rw [zip_append hlen, zip_cons_cons]

variable {build : (Str → Option Json) → Res α} {names : List Str} {name : Str} {J J' : Json}

/-- A struct reacts to a change of one field as building it reacts. -/
theorem struct_reacts (strict : Bool) (hnames : names.Nodup) (hname : name ∈ names)
    (hchange : FieldChange names name j j' J J')
    (h : ∀ get get' : Str → Option Json, get name = some j → get' name = some j' →
      (∀ n, n ≠ name → get' n = get n) → Reacts noticed (build get) (build get')) :
    Reacts noticed (struct strict names build J) (struct strict names build J') := by
  cases hchange with
  | obj pre post =>
    have hkeys : (pre ++ (name, j') :: post).map Prod.fst = (pre ++ (name, j) :: post).map Prod.fst := by simp
    have hall : (∀ f ∈ pre ++ (name, j') :: post, f.1 ∈ names) ↔ ∀ f ∈ pre ++ (name, j) :: post, f.1 ∈ names := by
      simp only [forall_mem_append, forall_mem_cons]
    simp only [struct, hkeys, hall]
    refine .bind_right fun _ _ => .bind_right fun _ hdup => ?_
    have hpre : name ∉ pre.map Prod.fst := by
      have hnd := Res.ensure_eq_ok.1 hdup
      simp only [map_append, map_cons, filter_append, filter_cons, hname, decide_true, if_true] at hnd
      have hdisj := (nodup_append.1 hnd).2.2
      intro hmem
      exact hdisj name (mem_filter.2 ⟨hmem, by simpa using hname⟩) name mem_cons_self rfl
    exact h _ _ (fieldOf_self hname hpre post) (fieldOf_self hname hpre post) fun n hn => fieldOf_of_ne hn pre post
  | arr pre post hpos =>
    simp only [struct, length_append, length_cons, zip_around hpos]
    refine .bind_right fun _ _ => ?_
    have hpre : name ∉ ((names.take pre.length).zip pre).map Prod.fst := by
      obtain ⟨hlt, hget⟩ := List.getElem?_eq_some_iff.1 hpos
      rw [map_fst_zip (by rw [length_take]; omega), ← hget]
      intro hmem
      obtain ⟨i, hi, heq⟩ := mem_take_iff_getElem.1 hmem
      have := (List.Nodup.getElem_inj_iff hnames).1 heq
      omega
    exact h _ _ (fieldOf_self hname hpre _) (fieldOf_self hname hpre _) fun n hn => fieldOf_of_ne hn _ _

/-- A struct reacts to a field it has, and did not have set, as building it
reacts. -/
theorem struct_add_reacts (strict : Bool) (hname : name ∈ names) {pre post : List (Str × Json)}
    (hfresh : name ∉ (pre ++ post).map Prod.fst) (v : Json)
    (h : ∀ get' : Str → Option Json, get' name = some v → fieldOf names (pre ++ post) name = none →
      (∀ n, n ≠ name → get' n = fieldOf names (pre ++ post) n) →
      Reacts noticed (build (fieldOf names (pre ++ post))) (build get')) :
    Reacts noticed (struct strict names build (.obj (pre ++ post)))
      (struct strict names build (.obj (pre ++ (name, v) :: post))) := by
  have hall : (∀ f ∈ pre ++ (name, v) :: post, f.1 ∈ names) ↔ ∀ f ∈ pre ++ post, f.1 ∈ names := by
    simp only [forall_mem_append, forall_mem_cons, hname, true_and]
  have hnodup : (((pre ++ (name, v) :: post).map Prod.fst).filter (· ∈ names)).Nodup ↔
      (((pre ++ post).map Prod.fst).filter (· ∈ names)).Nodup := by
    have hperm : ((pre ++ (name, v) :: post).map Prod.fst).Perm (name :: (pre ++ post).map Prod.fst) := by
      simp
    rw [(hperm.filter _).nodup_iff, filter_cons_of_pos (by simpa using hname), nodup_cons]
    exact and_iff_right fun hmem => hfresh (mem_filter.1 hmem).1
  simp only [struct, hall, hnodup]
  refine .bind_right fun _ _ => .bind_right fun _ _ => ?_
  rw [map_append, mem_append, not_or] at hfresh
  have hnone : fieldOf names (pre ++ post) name = none := by
    have hf : ∀ l : List (Str × Json), name ∉ l.map Prod.fst → l.find? (·.1 = name) = none := by
      intro l hl
      exact find?_eq_none.2 fun f hf h => hl (mem_map.2 ⟨f, hf, by simpa using h⟩)
    simp [fieldOf, find?_append, hf pre hfresh.1, hf post hfresh.2]
  refine h _ (fieldOf_self hname hfresh.1 post) hnone fun n hn => ?_
  simp [fieldOf, find?_append, hn.symm]

/-- A field that a struct does not have is refused by a strict one and passed
over by a lax one. -/
theorem struct_extra_reacts (strict : Bool) (hname : name ∉ names) (pre post : List (Str × Json)) (v : Json) :
    Reacts (strict = true) (struct strict names build (.obj (pre ++ post)))
      (struct strict names build (.obj (pre ++ (name, v) :: post))) := by
  cases strict with
  | true =>
    refine ⟨fun _ => ⟨"unknown field", ?_⟩, fun hn => absurd rfl hn⟩
    have hbad : ¬ (true = false ∨ ∀ f ∈ pre ++ (name, v) :: post, f.1 ∈ names) := by
      intro hor
      rcases hor with h | h
      · cases h
      · exact hname (h (name, v) (by simp))
    simp only [struct, ensure, if_neg hbad]
    rfl
  | false =>
    refine ⟨fun hn => absurd hn (by simp), fun _ => ?_⟩
    have hkeys : ((pre ++ (name, v) :: post).map Prod.fst).filter (· ∈ names) =
        ((pre ++ post).map Prod.fst).filter (· ∈ names) := by
      simp [hname]
    have hget : fieldOf names (pre ++ (name, v) :: post) = fieldOf names (pre ++ post) := by
      funext n
      by_cases hn : n ∈ names
      · have hne : name ≠ n := fun h => hname (h ▸ hn)
        simp [fieldOf, find?_append, hne]
      · simp [fieldOf, hn]
    simp only [struct, hkeys, hget, true_or]

end Decoder

end Rove
