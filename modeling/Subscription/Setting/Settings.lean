import Subscription.Setting.Basic

/-! # At most one setting per facet

`Settings` has a typed place for each facet, so a setting can only stand under
the facet it belongs to.  `get?` and `set` view it by facet, and two values
with the same `get?` are equal (`ext_get?`).
-/

namespace Subscription

/-- The settings of some facets. -/
structure Settings where
  limit : Option Limit := none
  extendPolicy : Option ExtendPolicy := none
  restrictPolicy : Option RestrictPolicy := none
  demo : Option DemoWindow := none
deriving DecidableEq, Inhabited

namespace Settings

/-- The setting of a facet. -/
def get? (s : Settings) : Facet → Option Setting
  | .limit => s.limit.map .limit
  | .extendPolicy => s.extendPolicy.map .extendPolicy
  | .restrictPolicy => s.restrictPolicy.map .restrictPolicy
  | .demo => s.demo.map .demo

/-- Gives the setting its facet's place. -/
def set (s : Settings) : Setting → Settings
  | .limit l => { s with limit := some l }
  | .extendPolicy p => { s with extendPolicy := some p }
  | .restrictPolicy p => { s with restrictPolicy := some p }
  | .demo w => { s with demo := some w }

/-- A later setting replaces an earlier one of the same facet. -/
def ofList (settings : List Setting) : Settings :=
  settings.foldl set {}

/-- Gives each of some facets in turn the setting that there is for it, if there is one. -/
def putAll (s : Settings) (facets : List Facet) (new : Facet → Option Setting) : Settings :=
  facets.foldl (fun s f => match new f with | some a => s.set a | none => s) s

/-- The settings in facet order. -/
def toList (s : Settings) : List Setting :=
  Facet.all.filterMap s.get?

/-- The settings of the given facets only. -/
def within (s : Settings) (facets : List Facet) : Settings where
  limit := if .limit ∈ facets then s.limit else none
  extendPolicy := if .extendPolicy ∈ facets then s.extendPolicy else none
  restrictPolicy := if .restrictPolicy ∈ facets then s.restrictPolicy else none
  demo := if .demo ∈ facets then s.demo else none

/-- The settings of `s`, and those of `t` for the facets that `s` leaves out. -/
def orElse (s t : Settings) : Settings where
  limit := s.limit.or t.limit
  extendPolicy := s.extendPolicy.or t.extendPolicy
  restrictPolicy := s.restrictPolicy.or t.restrictPolicy
  demo := s.demo.or t.demo

/-- Whether the same facets are set and each says the same. -/
def isSame (s t : Settings) : Bool :=
  Facet.all.all fun f =>
    match s.get? f, t.get? f with
    | some a, some b => a.isSame b
    | none, none => true
    | _, _ => false

/-- The stored fields of every setting, by facet name. -/
def fields (s : Settings) : Table Fields :=
  ⟨s.toList.map fun a => (a.facet.name, a.fields)⟩

theorem facet_of_get? {s : Settings} {f : Facet} {a : Setting} (h : s.get? f = some a) :
    a.facet = f := by
  cases f <;> simp only [get?, Option.map_eq_some_iff] at h <;> rcases h with ⟨_, _, rfl⟩ <;> rfl

theorem get?_set (s : Settings) (a : Setting) (f : Facet) :
    (s.set a).get? f = if f = a.facet then some a else s.get? f := by
  cases a <;> cases f <;> rfl

theorem get?_putAll {new : Facet → Option Setting} (hnew : ∀ f a, new f = some a → a.facet = f)
    (s : Settings) (facets : List Facet) (f : Facet) :
    (s.putAll facets new).get? f =
      if f ∈ facets then (new f).or (s.get? f) else s.get? f := by
  induction facets generalizing s with
  | nil => rfl
  | cons e facets ih =>
    have hstep : (s.putAll (e :: facets) new) =
        (match new e with | some a => s.set a | none => s).putAll facets new := rfl
    rw [hstep, ih]
    cases he : new e with
    | none =>
      by_cases hf : f = e
      · subst hf
        simp [he]
      · simp [hf]
    | some a =>
      obtain rfl := hnew e a he
      rw [get?_set]
      by_cases hf : f = a.facet
      · subst hf
        simp [he]
      · simp [hf]

theorem get?_within (s : Settings) (facets : List Facet) (f : Facet) :
    (s.within facets).get? f = if f ∈ facets then s.get? f else none := by
  cases f <;> simp only [get?, within] <;> split <;> rfl

theorem get?_orElse (s t : Settings) (f : Facet) :
    (s.orElse t).get? f = (s.get? f).or (t.get? f) := by
  rcases s with ⟨a, b, c, d⟩
  cases f <;> simp only [get?, orElse]
  · cases a <;> rfl
  · cases b <;> rfl
  · cases c <;> rfl
  · cases d <;> rfl

theorem ext_get? {s t : Settings} (h : ∀ f, s.get? f = t.get? f) : s = t := by
  have inj {α : Type} {g : α → Setting} (hg : ∀ x y, g x = g y → x = y) {a b : Option α}
      (hab : a.map g = b.map g) : a = b := by
    cases a <;> cases b <;> simp_all
    exact hg _ _ hab
  rcases s with ⟨a, b, c, d⟩
  rcases t with ⟨a', b', c', d'⟩
  have h1 := inj (fun _ _ => Setting.limit.inj) (h .limit)
  have h2 := inj (fun _ _ => Setting.extendPolicy.inj) (h .extendPolicy)
  have h3 := inj (fun _ _ => Setting.restrictPolicy.inj) (h .restrictPolicy)
  have h4 := inj (fun _ _ => Setting.demo.inj) (h .demo)
  dsimp only at h1 h2 h3 h4
  subst h1 h2 h3 h4
  rfl

end Settings
end Subscription
