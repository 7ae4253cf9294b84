import OnchainDataMcp.Lib.Fallible
import OnchainDataMcp.Lib.OrdMap

/-!
# Layers of settings

Settings are trees: tables down to values.  A layer is laid over another one table by table, and
where one of the two has no table, the upper one stands.

* `Node.find` / `Node.read` — what stands at a path, and which value;
* `Node.covers` — a layer says something about a path;
* `read_coalesce` — a path that the upper layer covers is read there, and every other one below;
* `Node.put` — one value set, with the tables on the way to it;
* `lookup_mapM` — a table decoded entry by entry.
-/

namespace OnchainDataMcp.Lib.Layers

inductive Node (α : Type)
  | value (a : α)
  | array (items : List (Node α))
  | dict (fields : List (String × Node α))

abbrev Fields (α : Type) := List (String × Node α)

namespace Node

variable {α : Type}

def isDict : Node α → Bool
  | dict _ => true
  | _ => false

/-- What stands at a path. -/
def find : Node α → List String → Option (Node α)
  | t, [] => some t
  | dict fields, k :: p => (fields.lookup k).bind fun t => t.find p
  | _, _ :: _ => none

/-- The value at a path. -/
def read (t : Node α) (p : List String) : Option (Node α) := (t.find p).filter fun x => !x.isDict

/-- Something stands at the path, or a value on the way to it. -/
def covers : Node α → List String → Bool
  | dict fields, k :: p => (fields.lookup k).any fun t => t.covers p
  | _, _ => true

theorem find_dict_cons (fields : Fields α) (k : String) (p : List String) :
    (dict fields).find (k :: p) = (fields.lookup k).bind fun t => t.find p := rfl

theorem covers_dict_cons (fields : Fields α) (k : String) (p : List String) :
    (dict fields).covers (k :: p) = (fields.lookup k).any fun t => t.covers p := rfl

theorem read_dict_cons (fields : Fields α) (k : String) (p : List String) :
    (dict fields).read (k :: p) = (fields.lookup k).bind fun t => t.read p := by
  rw [read, find_dict_cons]
  cases fields.lookup k <;> rfl

theorem find_cons_eq_none {t : Node α} (h : t.isDict = false) (k : String) (p : List String) :
    t.find (k :: p) = none := by
  cases t with
  | dict fields => cases h
  | value a => rfl
  | array items => rfl

theorem read_cons_eq_none {t : Node α} (h : t.isDict = false) (k : String) (p : List String) :
    t.read (k :: p) = none := by
  rw [read, find_cons_eq_none h]
  rfl

theorem covers_of_isDict_eq_false {t : Node α} (h : t.isDict = false) (p : List String) :
    t.covers p = true := by
  cases t with
  | dict fields => cases h
  | value a => cases p <;> rfl
  | array items => cases p <;> rfl

theorem covers_nil (t : Node α) : t.covers [] = true := by
  cases t <;> rfl

/-- What stands at a path covers it. -/
theorem covers_of_find {t x : Node α} {p : List String} (h : t.find p = some x) :
    t.covers p = true := by
  induction p generalizing t with
  | nil => exact covers_nil t
  | cons k p ih =>
    cases hdict : t.isDict with
    | false => exact covers_of_isDict_eq_false hdict _
    | true =>
      cases t with
      | value a => cases hdict
      | array items => cases hdict
      | dict fields =>
        rw [find_dict_cons] at h
        obtain ⟨u, hu, h⟩ := Option.bind_eq_some_iff.mp h
        rw [covers_dict_cons, hu]
        exact ih h

theorem read_eq_some_iff {t x : Node α} {p : List String} :
    t.read p = some x ↔ t.find p = some x ∧ x.isDict = false := by
  rw [read, Option.filter_eq_some_iff, Bool.not_eq_true']

theorem covers_of_read {t x : Node α} {p : List String} (h : t.read p = some x) :
    t.covers p = true := covers_of_find (read_eq_some_iff.mp h).1

theorem find_eq_none_of_not_covers {t : Node α} {p : List String} (h : t.covers p = false) :
    t.find p = none := by
  cases hfind : t.find p with
  | none => rfl
  | some x => rw [covers_of_find hfind] at h; cases h

theorem read_eq_none_of_not_covers {t : Node α} {p : List String} (h : t.covers p = false) :
    t.read p = none := by
  rw [read, find_eq_none_of_not_covers h]
  rfl

/-- On the way to what stands at a path there are tables. -/
theorem exists_dict_of_find_append {t x : Node α} {p q : List String} (hq : q ≠ [])
    (h : t.find (p ++ q) = some x) : ∃ fields, t.find p = some (dict fields) := by
  induction p generalizing t with
  | nil =>
    cases q with
    | nil => exact absurd rfl hq
    | cons k q =>
      cases t with
      | dict fields => exact ⟨fields, rfl⟩
      | value a => cases h
      | array items => cases h
  | cons k p ih =>
    cases t with
    | value a => cases h
    | array items => cases h
    | dict fields =>
      rw [List.cons_append, find_dict_cons] at h
      obtain ⟨u, hu, h⟩ := Option.bind_eq_some_iff.mp h
      obtain ⟨fields', hfields⟩ := ih h
      exact ⟨fields', by rw [find_dict_cons, hu]; exact hfields⟩

/-! ### One layer over another -/

mutual

/-- `upper` laid over a node: tables are merged. -/
def coalesce : Node α → Node α → Node α
  | dict lower, dict upper =>
    dict (coalesceFields lower upper ++ upper.filter fun e => (lower.lookup e.1).isNone)
  | _, upper => upper

/-- The entries of `lower`, under those of `upper`. -/
def coalesceFields : List (String × Node α) → List (String × Node α) → List (String × Node α)
  | [], _ => []
  | (k, t) :: lower, upper =>
    (k, match upper.lookup k with
      | some u => coalesce t u
      | none => t) :: coalesceFields lower upper

end

theorem coalesce_of_isDict_eq_false {lower : Node α} (h : lower.isDict = false) (upper : Node α) :
    lower.coalesce upper = upper := by
  cases lower with
  | dict fields => cases h
  | value a => rw [coalesce]; simp
  | array items => rw [coalesce]; simp

theorem coalesce_value {upper : Node α} (h : upper.isDict = false) (lower : Node α) :
    lower.coalesce upper = upper := by
  cases upper with
  | dict fields => cases h
  | value a => rw [coalesce]; simp
  | array items => rw [coalesce]; simp

theorem lookup_coalesceFields (lower upper : Fields α) (k : String) :
    (coalesceFields lower upper).lookup k = (lower.lookup k).map fun t =>
      match upper.lookup k with
      | some u => t.coalesce u
      | none => t := by
  induction lower with
  | nil => rw [coalesceFields]; rfl
  | cons e lower ih =>
    obtain ⟨k', t⟩ := e
    rw [coalesceFields, List.lookup_cons, List.lookup_cons]
    by_cases hk : k = k'
    · subst hk
      rw [beq_self_eq_true]
      rfl
    · rw [beq_eq_false_iff_ne.mpr hk]
      exact ih

end Node

theorem lookup_filter_key {β : Type} (l : List (String × β)) (P : String → Bool) (k : String) :
    (l.filter fun e => P e.1).lookup k = if P k then l.lookup k else none := by
  induction l with
  | nil => exact (ite_self none).symm
  | cons e l ih =>
    obtain ⟨k', t⟩ := e
    rw [List.filter_cons]
    by_cases hk : k = k'
    · subst hk
      by_cases hP : P k = true
      · rw [if_pos hP, if_pos hP, List.lookup_cons_self, List.lookup_cons_self]
      · rw [if_neg hP, ih, if_neg hP, if_neg hP]
    · have hbeq : (k == k') = false := beq_eq_false_iff_ne.mpr hk
      rw [List.lookup_cons, hbeq]
      by_cases hP : P k' = true
      · rw [if_pos hP, List.lookup_cons, hbeq]
        exact ih
      · rw [if_neg hP]
        exact ih

namespace Node

variable {α : Type}

/-- **What stands under a key** of two merged tables. -/
theorem lookup_coalesce (lower upper : Fields α) (k : String) :
    (coalesceFields lower upper ++ upper.filter fun e => (lower.lookup e.1).isNone).lookup k
      = match lower.lookup k, upper.lookup k with
        | some t, some u => some (t.coalesce u)
        | some t, none => some t
        | none, u => u := by
  rw [List.lookup_append, lookup_coalesceFields,
    lookup_filter_key upper fun k => (lower.lookup k).isNone]
  cases lower.lookup k with
  | none => rfl
  | some t => cases upper.lookup k <;> rfl

/-- **Layers.**  A path is read in the upper layer if that covers it, and else in the lower one. -/
theorem read_coalesce (lower upper : Node α) (p : List String) :
    (lower.coalesce upper).read p = if upper.covers p then upper.read p else lower.read p := by
  induction p generalizing lower upper with
  | nil =>
    rw [if_pos (covers_nil upper)]
    cases upper with
    | value a => rw [coalesce_value rfl]
    | array items => rw [coalesce_value rfl]
    | dict fields =>
      cases lower with
      | value a => rw [coalesce_of_isDict_eq_false rfl]
      | array items => rw [coalesce_of_isDict_eq_false rfl]
      | dict fields' => rw [coalesce]; rfl
  | cons k p ih =>
    cases hupper : upper.isDict with
    | false => rw [coalesce_value hupper, if_pos (covers_of_isDict_eq_false hupper _)]
    | true =>
      cases hlower : lower.isDict with
      | false =>
        rw [coalesce_of_isDict_eq_false hlower, read_cons_eq_none hlower]
        split_ifs with hcovers
        · rfl
        · exact read_eq_none_of_not_covers (Bool.eq_false_iff.mpr hcovers)
      | true =>
        cases upper with
        | value a => cases hupper
        | array items => cases hupper
        | dict upper =>
        cases lower with
        | value a => cases hlower
        | array items => cases hlower
        | dict lower =>
          rw [coalesce, read_dict_cons, read_dict_cons, read_dict_cons, covers_dict_cons,
            lookup_coalesce]
          cases lower.lookup k with
          | none =>
            cases upper.lookup k with
            | none => rfl
            | some u =>
              show u.read p = if u.covers p then u.read p else none
              split_ifs with hcovers
              · rfl
              · exact read_eq_none_of_not_covers (Bool.eq_false_iff.mpr hcovers)
          | some t =>
            cases upper.lookup k with
            | none => rfl
            | some u => exact ih t u

/-- A table of the upper layer stays one. -/
theorem find_coalesce_dict (lower : Node α) {upper : Node α} {p : List String}
    {fields : Fields α} (h : upper.find p = some (dict fields)) :
    ∃ fields', (lower.coalesce upper).find p = some (dict fields') := by
  induction p generalizing lower upper with
  | nil =>
    obtain rfl := Option.some.inj h
    cases lower with
    | value a => exact ⟨fields, by rw [coalesce_of_isDict_eq_false rfl]; rfl⟩
    | array items => exact ⟨fields, by rw [coalesce_of_isDict_eq_false rfl]; rfl⟩
    | dict lower => exact ⟨_, by rw [coalesce]; rfl⟩
  | cons k p ih =>
    cases upper with
    | value a => cases h
    | array items => cases h
    | dict upper =>
      cases hlower : lower.isDict with
      | false => exact ⟨fields, by rw [coalesce_of_isDict_eq_false hlower]; exact h⟩
      | true =>
        cases lower with
        | value a => cases hlower
        | array items => cases hlower
        | dict lower =>
          rw [find_dict_cons] at h
          obtain ⟨u, hu, h⟩ := Option.bind_eq_some_iff.mp h
          rw [coalesce, find_dict_cons, lookup_coalesce, hu]
          cases lower.lookup k with
          | none => exact ⟨fields, h⟩
          | some t => exact ih t h

/-- What the upper layer covers is covered. -/
theorem covers_coalesce (lower : Node α) {upper : Node α} {p : List String}
    (h : upper.covers p = true) : (lower.coalesce upper).covers p = true := by
  induction p generalizing lower upper with
  | nil => exact covers_nil _
  | cons k p ih =>
    cases hupper : upper.isDict with
    | false => rw [coalesce_value hupper]; exact h
    | true =>
      cases hlower : lower.isDict with
      | false => rw [coalesce_of_isDict_eq_false hlower]; exact h
      | true =>
        cases upper with
        | value a => cases hupper
        | array items => cases hupper
        | dict upper =>
        cases lower with
        | value a => cases hlower
        | array items => cases hlower
        | dict lower =>
          rw [covers_dict_cons] at h
          rw [coalesce, covers_dict_cons, lookup_coalesce]
          cases hu : upper.lookup k with
          | none => rw [hu] at h; cases h
          | some u =>
            rw [hu] at h
            cases lower.lookup k with
            | none => exact h
            | some t => exact ih t h

/-- A key of two merged layers, which depends on what each has under it. -/
theorem find_coalesce_single (lower upper : Node α) (k : String) :
    (lower.coalesce upper).find [k] =
      if upper.covers [k] then
        (upper.find [k]).map fun u => ((lower.find [k]).map fun t => t.coalesce u).getD u
      else lower.find [k] := by
  cases hupper : upper.isDict with
  | false =>
    rw [coalesce_value hupper, if_pos (covers_of_isDict_eq_false hupper _),
      find_cons_eq_none hupper]
    rfl
  | true =>
    cases hlower : lower.isDict with
    | false =>
      rw [coalesce_of_isDict_eq_false hlower, find_cons_eq_none hlower]
      split_ifs with hcovers
      · exact Option.map_id'.symm
      · exact find_eq_none_of_not_covers (Bool.eq_false_iff.mpr hcovers)
    | true =>
      cases upper with
      | value a => cases hupper
      | array items => cases hupper
      | dict upper =>
      cases lower with
      | value a => cases hlower
      | array items => cases hlower
      | dict lower =>
        rw [coalesce, find_dict_cons, find_dict_cons, find_dict_cons, covers_dict_cons,
          lookup_coalesce]
        cases lower.lookup k with
        | none =>
          cases upper.lookup k with
          | none => rfl
          | some u => rw [Option.any_some, covers_nil]; rfl
        | some t =>
          cases upper.lookup k with
          | none => rfl
          | some u => rw [Option.any_some, covers_nil]; rfl

/-- Two layers say the same about a path. -/
def Agree (a b : Node α) (p : List String) : Prop := a.find p = b.find p ∧ a.covers p = b.covers p

theorem Agree.read_eq {a b : Node α} {p : List String} (h : Agree a b p) : a.read p = b.read p := by
  rw [read, read, h.1]

theorem Agree.trans {a b c : Node α} {p : List String} (h : Agree a b p) (h' : Agree b c p) :
    Agree a c p := ⟨h.1.trans h'.1, h.2.trans h'.2⟩

/-- Layers that say the same about a path are read there as one. -/
theorem Agree.read_coalesce {lower lower' upper upper' : Node α} {p : List String}
    (h : Agree lower lower' p) (h' : Agree upper upper' p) :
    (lower.coalesce upper).read p = (lower'.coalesce upper').read p := by
  rw [Node.read_coalesce, Node.read_coalesce, h.read_eq, h'.read_eq, h'.2]

theorem agree_cons_of_lookup {fields fields' : Fields α} {k : String} (p : List String)
    (h : fields.lookup k = fields'.lookup k) : Agree (dict fields) (dict fields') (k :: p) := by
  rw [Agree, find_dict_cons, find_dict_cons, covers_dict_cons, covers_dict_cons, h]
  exact ⟨rfl, rfl⟩

theorem agree_cons {fields fields' : Fields α} {k : String} {t u : Node α} {p : List String}
    (ht : fields.lookup k = some t) (hu : fields'.lookup k = some u) (h : Agree t u p) :
    Agree (dict fields) (dict fields') (k :: p) := by
  rw [Agree, find_dict_cons, find_dict_cons, covers_dict_cons, covers_dict_cons, ht, hu]
  exact h

/-! ### Setting a value -/

/-- The entries of a table; anything else is replaced by a table. -/
def fieldsOf : Option (Node α) → Fields α
  | some (dict fields) => fields
  | _ => []

/-- A value below a path is read in the table there. -/
theorem read_append_cons (t : Node α) (p : List String) (k : String) (q : List String) :
    t.read (p ++ k :: q) = ((fieldsOf (t.find p)).lookup k).bind fun u => u.read q := by
  induction p generalizing t with
  | nil =>
    cases t with
    | dict fields => exact read_dict_cons fields k q
    | value a => exact read_cons_eq_none rfl k q
    | array items => exact read_cons_eq_none rfl k q
  | cons k' p ih =>
    rw [List.cons_append]
    cases t with
    | value a => exact read_cons_eq_none rfl k' _
    | array items => exact read_cons_eq_none rfl k' _
    | dict fields =>
      rw [read_dict_cons, find_dict_cons]
      cases fields.lookup k' with
      | none => rfl
      | some u => exact ih u

/-- `insert`: set the value at a path, and make the tables on the way. -/
def put (v : Node α) : List String → Fields α → Fields α
  | [], fields => fields
  | k :: p, fields =>
    (k, if p = [] then v else dict (put v p (fieldsOf (fields.lookup k)))) ::
      fields.filter fun e => e.1 ≠ k

/-- What is read after a value was set was there before, unless it is at or under that path. -/
theorem read_put {v x : Node α} {p q : List String} {fields : Fields α} (h : ¬q <+: p)
    (hread : (dict (put v q fields)).read p = some x) : (dict fields).read p = some x := by
  induction p generalizing q fields with
  | nil => cases hread
  | cons k p ih =>
    cases q with
    | nil => exact absurd List.nil_prefix h
    | cons k' q =>
      rw [put, read_dict_cons, List.lookup_cons] at hread
      by_cases hk : k = k'
      · subst hk
        have hq : ¬q <+: p := fun hq => h ((List.prefix_cons_inj k).mpr hq)
        have hne : q ≠ [] := fun hnil => hq (hnil ▸ List.nil_prefix)
        rw [beq_self_eq_true, if_neg hne] at hread
        have hbelow := ih hq hread
        rw [read_dict_cons]
        cases hlookup : fields.lookup k with
        | none =>
          rw [hlookup] at hbelow
          cases p <;> cases hbelow
        | some t =>
          rw [hlookup] at hbelow
          cases t with
          | dict below => exact hbelow
          | value a => cases p <;> cases hbelow
          | array items => cases p <;> cases hbelow
      · rw [beq_eq_false_iff_ne.mpr hk] at hread
        rw [read_dict_cons]
        rw [lookup_filter_key fields fun x => decide (x ≠ k'), if_pos (decide_eq_true hk)] at hread
        exact hread

end Node

/-! ### Decoding tables -/

/-- **A decoded table** has under a key what the entry of its name is decoded to. -/
theorem lookup_mapM {ε κ κ' ν ν' : Type} [BEq κ] [LawfulBEq κ] [BEq κ'] [LawfulBEq κ']
    {f : κ × ν → Except ε (κ' × ν')} {name : κ' → κ} (hinj : Function.Injective name)
    (hname : ∀ e e', f e = .ok e' → name e'.1 = e.1) {es : List (κ × ν)} {es' : List (κ' × ν')}
    (h : es.mapM f = .ok es') (c : κ') :
    (es.lookup (name c) = none ∧ es'.lookup c = none) ∨
      ∃ v o, es.lookup (name c) = some v ∧ f (name c, v) = .ok (c, o) ∧
        es'.lookup c = some o := by
  induction es generalizing es' with
  | nil =>
    obtain rfl := Except.ok.inj h
    exact .inl ⟨rfl, rfl⟩
  | cons e es ih =>
    rw [List.mapM_cons] at h
    obtain ⟨e', he, h⟩ := bind_eq_ok.mp h
    obtain ⟨rest, hrest, h⟩ := bind_eq_ok.mp h
    obtain rfl := Except.ok.inj h
    obtain ⟨k, v⟩ := e
    obtain ⟨c', o⟩ := e'
    have hk : name c' = k := hname _ _ he
    rw [List.lookup_cons, List.lookup_cons]
    by_cases hc : c = c'
    · subst hc
      subst hk
      rw [beq_self_eq_true, beq_self_eq_true]
      exact .inr ⟨v, o, rfl, he, rfl⟩
    · have hne : name c ≠ k := fun heq => hc (hinj (heq.trans hk.symm))
      rw [beq_eq_false_iff_ne.mpr hc, beq_eq_false_iff_ne.mpr hne]
      exact ih hrest

end OnchainDataMcp.Lib.Layers
