/-
  ParticleMesh — association lists.

  `Assoc K V` holds values under keys. Only the first entry of a key counts.

  * `get?` looks a key up;
  * `put` sets the value of a key and makes its entry the last one, `putNew` sets
    it if there is none;
  * `modify` changes the value of a key in place, `erase` removes the key;
  * `get?_put`, `get?_putNew`, `get?_modify`, `get?_erase` say what each of them
    does to every key.
-/
namespace ParticleMesh

/-- Values under keys. -/
structure Assoc (K V : Type) where
  entries : List (K × V)
deriving Inhabited

namespace Assoc

variable {K V : Type} [DecidableEq K]

def empty : Assoc K V := ⟨[]⟩

/-- The value in the first entry of a key. -/
def find? (k : K) : List (K × V) → Option V
  | [] => none
  | e :: es => if e.1 = k then some e.2 else find? k es

/-- The value of a key. -/
def get? (m : Assoc K V) (k : K) : Option V := find? k m.entries

/-- Whether a key has a value. -/
def has (m : Assoc K V) (k : K) : Bool := (m.get? k).isSome

def erase (m : Assoc K V) (k : K) : Assoc K V := ⟨m.entries.filter (fun e => e.1 ≠ k)⟩

/-- With a value for a key, whose entry becomes the last one. -/
def put (m : Assoc K V) (k : K) (v : V) : Assoc K V := ⟨(m.erase k).entries ++ [(k, v)]⟩

/-- With a value for a key that has none. -/
def putNew (m : Assoc K V) (k : K) (v : V) : Assoc K V :=
  if m.has k then m else ⟨m.entries ++ [(k, v)]⟩

/-- With a changed value for a key. -/
def modify (m : Assoc K V) (k : K) (f : V → V) : Assoc K V :=
  ⟨m.entries.map (fun e => if e.1 = k then (e.1, f e.2) else e)⟩

/-- The entries for which a condition holds. -/
def filter (m : Assoc K V) (p : K → V → Bool) : Assoc K V :=
  ⟨m.entries.filter (fun e => p e.1 e.2)⟩

def size (m : Assoc K V) : Nat := m.entries.length

/-- The keys, oldest entry first. -/
def keys (m : Assoc K V) : List K := m.entries.map (·.1)

/-- The values, oldest entry first. -/
def values (m : Assoc K V) : List V := m.entries.map (·.2)

@[simp] theorem get?_empty (k : K) : (empty : Assoc K V).get? k = none := rfl

theorem find?_append (k : K) (es fs : List (K × V)) :
    find? k (es ++ fs) = (find? k es).or (find? k fs) := by
  induction es with
  | nil => rfl
  | cons e es ih => by_cases h : e.1 = k <;> simp [find?, h, ih]

theorem find?_filter_ne (es : List (K × V)) (k l : K) :
    find? l (es.filter (fun e => e.1 ≠ k)) = if l = k then none else find? l es := by
  induction es with
  | nil => simp [find?]
  | cons e es ih =>
    by_cases hk : e.1 = k
    · rw [List.filter_cons_of_neg (by simpa using hk), ih]
      by_cases hl : l = k
      · rw [if_pos hl, if_pos hl]
      · rw [if_neg hl, if_neg hl, find?, if_neg (fun h : e.1 = l => hl (h.symm.trans hk))]
    · rw [List.filter_cons_of_pos (by simpa using hk), find?, ih]
      by_cases hl : e.1 = l
      · rw [if_pos hl, if_neg (fun h => hk (hl.trans h)), find?, if_pos hl]
      · rw [if_neg hl]
        by_cases h : l = k
        · rw [if_pos h, if_pos h]
        · rw [if_neg h, if_neg h, find?, if_neg hl]

theorem get?_erase (m : Assoc K V) (k l : K) :
    (m.erase k).get? l = if l = k then none else m.get? l := find?_filter_ne _ _ _

@[simp] theorem get?_erase_self (m : Assoc K V) (k : K) : (m.erase k).get? k = none := by
  simp [get?_erase]

theorem get?_put (m : Assoc K V) (k l : K) (v : V) :
    (m.put k v).get? l = if l = k then some v else m.get? l := by
  have h : find? l (m.erase k).entries = _ := get?_erase m k l
  rw [get?, put, find?_append, h]
  by_cases hl : l = k
  · simp [hl, find?]
  · have hk : ¬ k = l := fun e => hl e.symm
    simp [hl, hk, find?]

@[simp] theorem get?_put_self (m : Assoc K V) (k : K) (v : V) : (m.put k v).get? k = some v := by
  simp [get?_put]

theorem get?_putNew (m : Assoc K V) (k l : K) (v : V) :
    (m.putNew k v).get? l = if l = k then some ((m.get? k).getD v) else m.get? l := by
  by_cases hl : l = k
  · subst hl
    cases h : m.get? l with
    | some w => simp [putNew, has, h]
    | none =>
      rw [putNew, has, h, if_neg (by simp), get?, find?_append,
        show find? l m.entries = none from h]
      simp [find?]
  · rw [if_neg hl, putNew]
    split
    · rfl
    · have hk : ¬ k = l := fun e => hl e.symm
      simp [get?, find?_append, find?, hk]

theorem get?_modify (m : Assoc K V) (k l : K) (f : V → V) :
    (m.modify k f).get? l = if l = k then (m.get? l).map f else m.get? l := by
  obtain ⟨es⟩ := m
  simp only [get?, modify]
  induction es with
  | nil => simp [find?]
  | cons e es ih =>
    by_cases hk : e.1 = k
    · by_cases hl : l = k
      · subst hl; simp [find?, hk]
      · have : e.1 ≠ l := fun h => hl (h ▸ hk)
        simp only [List.map_cons, if_pos hk, find?, if_neg this, ih]
    · by_cases hl : e.1 = l
      · have : l ≠ k := fun h => hk (hl.trans h)
        simp [find?, hl, this]
      · simp only [List.map_cons, if_neg hk, find?, if_neg hl, ih]

end Assoc

end ParticleMesh
