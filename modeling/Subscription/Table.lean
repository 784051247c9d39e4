/-! # Tables of named entries

A table keeps its entries in order, and the first entry of a name is the one
that counts.  Everything the library reads from a table goes through `get?`;
each operation is described by what it does to `get?`.
-/

namespace Subscription

/-- Entries by name. -/
structure Table (α : Type) where
  entries : List (String × α) := []
deriving DecidableEq, Inhabited

namespace Table

variable {α β : Type}

def empty : Table α := {}

/-- The entry of a name. -/
def get? (t : Table α) (name : String) : Option α :=
  t.entries.lookup name

def contains (t : Table α) (name : String) : Bool :=
  (t.get? name).isSome

def names (t : Table α) : List String :=
  t.entries.map Prod.fst

/-- The table without any entry of a name. -/
def erase (t : Table α) (name : String) : Table α :=
  ⟨t.entries.filter fun e => e.1 != name⟩

/-- The table with `value` as the one entry of `name`. -/
def insert (t : Table α) (name : String) (value : α) : Table α :=
  ⟨(name, value) :: (t.erase name).entries⟩

/-- A later entry replaces an earlier one of the same name. -/
def ofList (entries : List (String × α)) : Table α :=
  entries.foldl (fun t e => t.insert e.1 e.2) {}

/-- The last entry of each name, in the order in which they stand. -/
def lastEntries (t : Table α) : Table α :=
  ⟨t.entries.foldr (fun e rest => if rest.any (·.1 == e.1) then rest else e :: rest) []⟩

/-- Every entry read by `f`, if each can be; of those of one name the last counts. -/
def readEach (f : α → Option β) (t : Table α) : Option (Table β) :=
  (t.entries.mapM fun e => (f e.2).map fun b => (e.1, b)).map fun read => lastEntries ⟨read⟩

def map (f : α → β) (t : Table α) : Table β :=
  ⟨t.entries.map fun e => (e.1, f e.2)⟩

/-- The entries of `top`, and those of `base` whose names `top` lacks. -/
def overlay (base top : Table α) : Table α :=
  ⟨top.entries ++ base.entries.filter fun e => !top.contains e.1⟩

private theorem lookup_filter (p : String → Bool) (entries : List (String × α)) (name : String) :
    (entries.filter fun e => p e.1).lookup name =
      if p name then entries.lookup name else none := by
  induction entries with
  | nil => simp
  | cons e rest ih =>
    rcases e with ⟨k, v⟩
    rw [List.filter_cons]
    by_cases hk : name = k
    · subst k
      by_cases hp : p name
      · simp [hp]
      · rw [if_neg (by simpa using hp), ih]
        simp [hp]
    · have hb : (name == k) = false := by simpa using hk
      by_cases hp : p k
      · rw [if_pos (by simpa using hp), List.lookup_cons, List.lookup_cons, hb, ih]
      · rw [if_neg (by simpa using hp), List.lookup_cons, hb, ih]

private theorem lookup_append (xs ys : List (String × α)) (name : String) :
    (xs ++ ys).lookup name = (xs.lookup name).or (ys.lookup name) := by
  induction xs with
  | nil => simp
  | cons e rest ih =>
    rcases e with ⟨k, v⟩
    by_cases hk : name = k
    · subst k
      simp
    · have hb : (name == k) = false := by simpa using hk
      simp [List.lookup_cons, hb, ih]

@[simp] theorem get?_empty (name : String) : (empty : Table α).get? name = none := rfl

theorem get?_erase (t : Table α) (name other : String) :
    (t.erase name).get? other = if other = name then none else t.get? other := by
  unfold get? erase
  rw [lookup_filter (fun k => k != name)]
  by_cases h : other = name <;> simp [h]

theorem get?_insert (t : Table α) (name other : String) (value : α) :
    (t.insert name value).get? other = if other = name then some value else t.get? other := by
  by_cases h : other = name
  · subst other
    simp [get?, insert]
  · have hb : (other == name) = false := by simpa using h
    have he := get?_erase t name other
    simp only [h, if_false] at he ⊢
    rw [← he]
    simp [get?, insert, List.lookup_cons, hb]

private theorem lastEntries_cons (e : String × α) (rest : List (String × α)) :
    (lastEntries ⟨e :: rest⟩).entries =
      if (lastEntries ⟨rest⟩).entries.any (·.1 == e.1) then (lastEntries ⟨rest⟩).entries
      else e :: (lastEntries ⟨rest⟩).entries := rfl

theorem lastEntries_sublist (t : Table α) : t.lastEntries.entries.Sublist t.entries := by
  obtain ⟨entries⟩ := t
  induction entries with
  | nil => exact .slnil
  | cons e rest ih =>
    rw [lastEntries_cons]
    split
    · exact ih.cons e
    · exact ih.cons_cons e

/-- No name is left twice. -/
theorem names_lastEntries_nodup (t : Table α) : t.lastEntries.names.Nodup := by
  obtain ⟨entries⟩ := t
  induction entries with
  | nil => exact List.nodup_nil
  | cons e rest ih =>
    unfold names
    rw [lastEntries_cons]
    split
    · exact ih
    · rename_i hlater
      refine List.nodup_cons.mpr ⟨fun hmem => hlater ?_, ih⟩
      obtain ⟨later, hlater, hname⟩ := List.mem_map.mp hmem
      exact List.any_eq_true.mpr ⟨later, hlater, by simp [hname]⟩

/-- Nothing changes where no name occurs twice. -/
theorem lastEntries_eq_self {t : Table α} (h : t.names.Nodup) : t.lastEntries = t := by
  obtain ⟨entries⟩ := t
  induction entries with
  | nil => rfl
  | cons e rest ih =>
    obtain ⟨hfresh, hrest⟩ := List.nodup_cons.mp h
    have heq : (lastEntries ⟨rest⟩).entries = rest := congrArg entries (ih hrest)
    have hany : rest.any (·.1 == e.1) = false := by
      refine List.any_eq_false.mpr fun later hlater hname => hfresh ?_
      rw [← eq_of_beq hname]
      exact List.mem_map_of_mem hlater
    have hkeep : (lastEntries ⟨e :: rest⟩).entries = e :: rest := by
      rw [lastEntries_cons, heq, hany]
      rfl
    exact congrArg mk hkeep

/-- An overlay answers from the top first. -/
theorem get?_overlay (base top : Table α) (name : String) :
    (base.overlay top).get? name = (top.get? name).or (base.get? name) := by
  unfold get? overlay
  rw [lookup_append, lookup_filter (fun k => !top.contains k)]
  cases h : top.entries.lookup name <;> simp [contains, get?, h]

end Table
end Subscription
