import Mathlib.Data.List.Forall2
import Subscription.Stored

/-! # Rereading values

A value comes out of reading as it went in exactly if no name occurs twice in an
object and every numeral is read back (`Value.reread_eq_self_iff`).  What comes
out of reading has distinct names, only numerals that are written for numbers
that were read (`Value.regular_of_reread`), and nests no deeper than before
(`Value.nesting_reread_le`).  Rereading goes down a value by its shape, and so do
the proofs (`Value.shapeInduction`).
-/

namespace Subscription

/-! ## Lists whose elements are read one by one -/

section Lists
variable {α β : Type} {f : α → Option β}

theorem mapM_eq_some_iff {xs : List α} {ys : List β} :
    xs.mapM f = some ys ↔ List.Forall₂ (fun x y => f x = some y) xs ys := by
  induction xs generalizing ys with
  | nil => simp [eq_comm]
  | cons x xs ih =>
    rw [List.mapM_cons, List.forall₂_cons_left_iff]
    constructor
    · intro h
      obtain ⟨y, hy, h⟩ := Option.bind_eq_some_iff.mp h
      obtain ⟨rest, hrest, h⟩ := Option.bind_eq_some_iff.mp h
      exact ⟨y, rest, hy, ih.mp hrest, (Option.some.inj h).symm⟩
    · rintro ⟨y, rest, hy, hrest, rfl⟩
      rw [hy, ih.mpr hrest]
      rfl

/-- Everything that comes out was read from something that went in. -/
theorem exists_of_mem_mapM {xs : List α} {ys : List β} (h : xs.mapM f = some ys) {y : β}
    (hy : y ∈ ys) : ∃ x ∈ xs, f x = some y := by
  induction mapM_eq_some_iff.mp h with
  | nil => exact absurd hy List.not_mem_nil
  | @cons x y' xs ys hxy hrest ih =>
    obtain rfl | hy := List.mem_cons.mp hy
    · exact ⟨x, List.mem_cons_self, hxy⟩
    · obtain ⟨x, hx, hxy⟩ := ih (mapM_eq_some_iff.mpr hrest) hy
      exact ⟨x, List.mem_cons_of_mem _ hx, hxy⟩

/-- A list comes out as it went in exactly if each of its elements does. -/
theorem mapM_eq_self_iff {f : α → Option α} {xs : List α} :
    xs.mapM f = some xs ↔ ∀ x ∈ xs, f x = some x :=
  mapM_eq_some_iff.trans List.forall₂_same

end Lists

/-! ## Tables whose entries are read one by one -/

namespace Table
variable {α β : Type} {f : α → Option β} {t : Table α} {u : Table β}

theorem names_nodup_of_readEach (h : t.readEach f = some u) : u.names.Nodup := by
  obtain ⟨read, -, rfl⟩ := Option.map_eq_some_iff.mp h
  exact names_lastEntries_nodup _

/-- Every entry that comes out was read from one of its name. -/
theorem exists_of_mem_readEach (h : t.readEach f = some u) {e : String × β}
    (he : e ∈ u.entries) : ∃ a, (e.1, a) ∈ t.entries ∧ f a = some e.2 := by
  obtain ⟨read, hread, rfl⟩ := Option.map_eq_some_iff.mp h
  obtain ⟨x, hx, hxe⟩ := exists_of_mem_mapM hread ((lastEntries_sublist _).subset he)
  obtain ⟨b, hb, rfl⟩ := Option.map_eq_some_iff.mp hxe
  exact ⟨x.2, hx, hb⟩

/-- A table that is written entry by entry comes out as it was exactly if its names are distinct
and each value is read back. -/
theorem readEach_map_eq_iff {t : Table β} {g : β → α} :
    (t.map g).readEach f = some t ↔
      t.names.Nodup ∧ ∀ e ∈ t.entries, f (g e.2) = some e.2 := by
  have hentries : ∀ e : String × β,
      ((f (g e.2)).map fun b => (e.1, b)) = some e ↔ f (g e.2) = some e.2 := by
    rintro ⟨name, b⟩
    simp
  have heach : (t.map g).readEach f = (t.entries.mapM fun e =>
      (f (g e.2)).map fun b => (e.1, b)).map fun read => lastEntries ⟨read⟩ := by
    unfold readEach map
    rw [List.mapM_map]
    rfl
  rw [heach, Option.map_eq_some_iff]
  constructor
  · rintro ⟨read, hread, hlast⟩
    -- As many entries are left as were read, so none was dropped.
    have hsub : t.entries.Sublist read := by
      have hsub := lastEntries_sublist ⟨read⟩
      rwa [hlast] at hsub
    have hlength := (mapM_eq_some_iff.mp hread).length_eq
    obtain rfl := hsub.eq_of_length hlength
    refine ⟨?_, fun e he => (hentries e).mp (mapM_eq_self_iff.mp hread e he)⟩
    rw [← hlast]
    exact names_lastEntries_nodup _
  · rintro ⟨hnames, hread⟩
    exact ⟨t.entries, mapM_eq_self_iff.mpr fun e he => (hentries e).mpr (hread e he),
      lastEntries_eq_self hnames⟩

theorem readEach_eq_self_iff {f : α → Option α} :
    t.readEach f = some t ↔ t.names.Nodup ∧ ∀ e ∈ t.entries, f e.2 = some e.2 := by
  have hmap : t.map id = t := congrArg mk (List.map_id _)
  have hiff := readEach_map_eq_iff (f := f) (t := t) (g := id)
  rwa [hmap] at hiff

end Table

/-! ## Numerals -/

namespace Medium
variable [Medium]

/-- Whether a numeral is the one that is written for what it is read as. -/
def ReadsBack (numeral : String) : Prop := rewrite? numeral = some numeral

/-- Whether a numeral is written for some number. -/
def IsWritten (numeral : String) : Prop := ∃ number, write number = numeral

/-- Whether a numeral is written for a number that was read from some numeral. -/
def IsRewritten (numeral : String) : Prop := ∃ original, rewrite? original = some numeral

/-- Every number is read back, and objects may nest to any depth. -/
structure Faithful : Prop where
  read?_write : ∀ number, read? (write number) = some number
  depth?_eq_none : depth? = none

/-- Every number that can be read at all is read back. -/
def Stable : Prop :=
  ∀ numeral number, read? numeral = some number → read? (write number) = some number

theorem Faithful.stable (h : Faithful) : Stable := fun _ number _ => h.read?_write number

theorem Faithful.admits (h : Faithful) (nesting : Nat) : admits nesting = true := by
  unfold Medium.admits
  rw [h.depth?_eq_none]
  rfl

theorem Faithful.readsBack (h : Faithful) {numeral : String} (hwritten : IsWritten numeral) :
    ReadsBack numeral := by
  obtain ⟨number, rfl⟩ := hwritten
  exact congrArg (Option.map write) (h.read?_write number)

theorem Stable.readsBack (h : Stable) {numeral : String} (hrewritten : IsRewritten numeral) :
    ReadsBack numeral := by
  obtain ⟨original, horiginal⟩ := hrewritten
  obtain ⟨number, hread, rfl⟩ := Option.map_eq_some_iff.mp horiginal
  exact congrArg (Option.map write) (h original number hread)

/-- What nests less deep is read as well. -/
theorem admits_of_le {n m : Nat} (h : n ≤ m) (hm : admits m = true) : admits n = true := by
  unfold admits at hm ⊢
  cases hdepth : (depth? : Option Nat) with
  | none => rfl
  | some depth =>
    rw [hdepth] at hm
    exact decide_eq_true (Nat.le_trans h (of_decide_eq_true hm))

omit [Medium] in
/-- Nothing is lost on values that are handed on as they are. -/
theorem faithful_verbatim : @Faithful verbatim :=
  @Faithful.mk verbatim (fun _ => rfl) rfl

end Medium

namespace Value

/-! ## Values by their shape -/

/-- No name occurs twice in an object, and every numeral has the property. -/
inductive Regular (P : String → Prop) : Value → Prop where
  | null : Regular P null
  | bool (b : Bool) : Regular P (bool b)
  | int (n : Int) : Regular P (int n)
  | real {numeral : String} (h : P numeral) : Regular P (real numeral)
  | string (s : String) : Regular P (string s)
  | array {items : List Value} (h : ∀ v ∈ items, Regular P v) : Regular P (array items)
  | object {fields : Table Value} (hnames : fields.names.Nodup)
      (h : ∀ e ∈ fields.entries, Regular P e.2) : Regular P (object fields)

theorem Regular.imp {P Q : String → Prop} {v : Value} (h : v.Regular P)
    (hPQ : ∀ numeral, P numeral → Q numeral) : v.Regular Q := by
  induction h with
  | null => exact .null
  | bool b => exact .bool b
  | int n => exact .int n
  | real h => exact .real (hPQ _ h)
  | string s => exact .string s
  | array _ ih => exact .array ih
  | object hnames _ ih => exact .object hnames ih

theorem itemsNesting_le_iff {items : List Value} {n : Nat} :
    itemsNesting items ≤ n ↔ ∀ v ∈ items, v.nesting ≤ n := by
  induction items with
  | nil => simp [itemsNesting]
  | cons v vs ih => rw [itemsNesting, Nat.max_le, ih, List.forall_mem_cons]

theorem fieldsNesting_le_iff {fields : Table Value} {n : Nat} :
    fieldsNesting fields ≤ n ↔ ∀ e ∈ fields.entries, e.2.nesting ≤ n := by
  obtain ⟨entries⟩ := fields
  rw [fieldsNesting]
  induction entries with
  | nil => simp [entriesNesting]
  | cons e entries ih => rw [entriesNesting, Nat.max_le, ih, List.forall_mem_cons]

/-- An array is known once its items are, and an object once its fields are. -/
theorem shapeInduction {motive : Value → Prop} (null : motive null) (bool : ∀ b, motive (bool b))
    (int : ∀ n, motive (int n)) (real : ∀ numeral, motive (real numeral))
    (string : ∀ s, motive (string s))
    (array : ∀ items, (∀ v ∈ items, motive v) → motive (array items))
    (object : ∀ fields, (∀ e ∈ fields.entries, motive e.2) → motive (object fields)) (v : Value) :
    motive v := by
  induction hn : v.nesting using Nat.strongRecOn generalizing v with
  | _ n ih =>
    subst hn
    cases v with
    | null => exact null
    | bool b => exact bool b
    | int n => exact int n
    | real numeral => exact real numeral
    | string s => exact string s
    | array items =>
      refine array items fun v hv => ih v.nesting ?_ v rfl
      exact Nat.lt_succ_of_le (itemsNesting_le_iff.mp (Nat.le_refl _) v hv)
    | object fields =>
      refine object fields fun e he => ih e.2.nesting ?_ e.2 rfl
      exact Nat.lt_succ_of_le (fieldsNesting_le_iff.mp (Nat.le_refl _) e he)

/-! ## What is read -/

variable [Medium] {v w : Value}

theorem rereadItems_eq_mapM (items : List Value) : rereadItems items = items.mapM reread := by
  induction items with
  | nil => rfl
  | cons v vs ih =>
    rw [List.mapM_cons, ← ih]
    rfl

theorem rereadFields_eq_readEach (fields : Table Value) :
    rereadFields fields = fields.readEach reread := by
  obtain ⟨entries⟩ := fields
  have hentries : rereadEntries entries =
      entries.mapM fun e => e.2.reread.map fun v => (e.1, v) := by
    induction entries with
    | nil => rfl
    | cons e entries ih =>
      rw [List.mapM_cons, ← ih, rereadEntries]
      cases e.2.reread <;> rfl
  unfold rereadFields Table.readEach
  rw [hentries]

theorem reread_array_eq_some_iff {items : List Value} :
    (array items).reread = some w ↔ ∃ read, items.mapM reread = some read ∧ array read = w := by
  rw [← rereadItems_eq_mapM]
  exact Option.map_eq_some_iff

theorem reread_object_eq_some_iff {fields : Table Value} :
    (object fields).reread = some w ↔
      ∃ read, fields.readEach reread = some read ∧ object read = w := by
  rw [← rereadFields_eq_readEach]
  exact Option.map_eq_some_iff

/-- A value comes out of reading as it went in exactly if its names are distinct and its
numerals are read back. -/
theorem reread_eq_self_iff : v.reread = some v ↔ v.Regular Medium.ReadsBack := by
  induction v using shapeInduction with
  | null => exact iff_of_true rfl .null
  | bool b => exact iff_of_true rfl (.bool b)
  | int n => exact iff_of_true rfl (.int n)
  | string s => exact iff_of_true rfl (.string s)
  | real numeral =>
    have hreal : (real numeral).reread = some (real numeral) ↔ Medium.ReadsBack numeral := by
      show Option.map real _ = _ ↔ _
      simp [Medium.ReadsBack]
    exact hreal.trans ⟨.real, fun | .real h => h⟩
  | array items ih =>
    have hitems : (array items).reread = some (array items) ↔ ∀ v ∈ items, v.reread = some v := by
      rw [reread_array_eq_some_iff, ← mapM_eq_self_iff]
      simp
    rw [hitems]
    exact ⟨fun h => .array fun v hv => (ih v hv).mp (h v hv),
      fun | .array h => fun v hv => (ih v hv).mpr (h v hv)⟩
  | object fields ih =>
    have hfields : (object fields).reread = some (object fields) ↔
        fields.names.Nodup ∧ ∀ e ∈ fields.entries, e.2.reread = some e.2 := by
      rw [reread_object_eq_some_iff, ← Table.readEach_eq_self_iff]
      simp
    rw [hfields]
    exact ⟨fun h => .object h.1 fun e he => (ih e he).mp (h.2 e he),
      fun | .object hnames h => ⟨hnames, fun e he => (ih e he).mpr (h e he)⟩⟩

/-- What is read has distinct names and only rewritten numerals. -/
theorem regular_of_reread (h : v.reread = some w) : w.Regular Medium.IsRewritten := by
  induction v using shapeInduction generalizing w with
  | null => cases h; exact .null
  | bool b => cases h; exact .bool b
  | int n => cases h; exact .int n
  | string s => cases h; exact .string s
  | real numeral =>
    obtain ⟨written, hwritten, rfl⟩ := Option.map_eq_some_iff.mp h
    exact .real ⟨numeral, hwritten⟩
  | array items ih =>
    obtain ⟨read, hread, rfl⟩ := reread_array_eq_some_iff.mp h
    refine .array fun w hw => ?_
    obtain ⟨v, hv, hvw⟩ := exists_of_mem_mapM hread hw
    exact ih v hv hvw
  | object fields ih =>
    obtain ⟨read, hread, rfl⟩ := reread_object_eq_some_iff.mp h
    refine .object (Table.names_nodup_of_readEach hread) fun e he => ?_
    obtain ⟨v, hv, hve⟩ := Table.exists_of_mem_readEach hread he
    exact ih (e.1, v) hv hve

/-- What is read nests no deeper than what it was read from. -/
theorem nesting_reread_le (h : v.reread = some w) : w.nesting ≤ v.nesting := by
  induction v using shapeInduction generalizing w with
  | null => cases h; exact Nat.le_refl _
  | bool b => cases h; exact Nat.le_refl _
  | int n => cases h; exact Nat.le_refl _
  | string s => cases h; exact Nat.le_refl _
  | real numeral =>
    obtain ⟨written, -, rfl⟩ := Option.map_eq_some_iff.mp h
    exact Nat.le_refl _
  | array items ih =>
    obtain ⟨read, hread, rfl⟩ := reread_array_eq_some_iff.mp h
    refine Nat.succ_le_succ (itemsNesting_le_iff.mpr fun w hw => ?_)
    obtain ⟨v, hv, hvw⟩ := exists_of_mem_mapM hread hw
    exact Nat.le_trans (ih v hv hvw) (itemsNesting_le_iff.mp (Nat.le_refl _) v hv)
  | object fields ih =>
    obtain ⟨read, hread, rfl⟩ := reread_object_eq_some_iff.mp h
    refine Nat.succ_le_succ (fieldsNesting_le_iff.mpr fun e he => ?_)
    obtain ⟨v, hv, hve⟩ := Table.exists_of_mem_readEach hread he
    exact Nat.le_trans (ih (e.1, v) hv hve) (fieldsNesting_le_iff.mp (Nat.le_refl _) (e.1, v) hv)

/-- The fields of an object come out of reading as they went in exactly if the object does and
does not nest too deep. -/
theorem readFields?_eq_self_iff {fields : Table Value} :
    readFields? fields = some fields ↔
      (object fields).Regular Medium.ReadsBack ∧ Medium.admits (object fields).nesting = true := by
  have hfields : rereadFields fields = some fields ↔
      (object fields).Regular Medium.ReadsBack := by
    rw [← reread_eq_self_iff, reread_object_eq_some_iff, rereadFields_eq_readEach]
    simp
  unfold readFields?
  split
  · rename_i hadmits
    rw [hfields, and_iff_left hadmits]
  · rename_i hadmits
    exact ⟨nofun, fun h => absurd h.2 hadmits⟩

/-- The fields of an object that are read are fit to be read again, up to their numerals. -/
theorem regular_of_readFields? {fields read : Table Value} (h : readFields? fields = some read) :
    (object read).Regular Medium.IsRewritten ∧ Medium.admits (object read).nesting = true := by
  unfold readFields? at h
  split at h
  · rename_i hadmits
    have hreread : (object fields).reread = some (object read) := congrArg (Option.map object) h
    exact ⟨regular_of_reread hreread, Medium.admits_of_le (nesting_reread_le hreread) hadmits⟩
  · cases h

end Value
end Subscription
