import Subscription.Distinct
import Subscription.Document.Basic

/-! # Sound documents

A document is sound when each declaration is sound by itself and no name, id or
variant is declared twice.  `Declaration.validate` and `Document.validate`
report the first fault in document order.
-/

namespace Subscription

/-- What is wrong with a document or a declaration in it. -/
inductive DocumentFault where
  | emptyName
  | noVariants (family : String)
  | noFacets (family : String)
  | repeatedFacet (family : String) (f : Facet)
  | zeroStep (s : Span)
  | reversedSpan (s : Span)
  | catalog (family : String) (e : CatalogError)
  | defaultLimit (family : String) (e : CatalogError)
  | tiersWithoutLimit (family : String)
  | unknownRule (name : String)
  | repeatedName (family : String)
  | repeatedId (id : UInt32)
  | repeatedVariant (variant : UInt32)
deriving DecidableEq

def DocumentFault.message : DocumentFault → String
  | emptyName => "family name cannot be empty"
  | noVariants n => "family '" ++ n ++ "' declares no variants"
  | noFacets n => "family '" ++ n ++ "' declares no facets"
  | repeatedFacet n f => "family '" ++ n ++ "' lists facet '" ++ f.name ++ "' twice"
  | zeroStep s =>
    "tier span " ++ toString s.first.toNat ++ "..=" ++ toString s.last.toNat ++ " has zero step"
  | reversedSpan s =>
    "tier span starts after it ends (" ++ toString s.first.toNat ++ " > " ++
      toString s.last.toNat ++ ")"
  | catalog n e => "family '" ++ n ++ "' catalog: " ++ e.message
  | defaultLimit n e => "family '" ++ n ++ "' default limit: " ++ e.message
  | tiersWithoutLimit n => "family '" ++ n ++ "' has tiers but no limit facet"
  | unknownRule r =>
    "invalid extend policy '" ++ r ++ "', must be one of: " ++
      ", ".intercalate (Named.all.map ExtendRule.name)
  | repeatedName n => "duplicate family name '" ++ n ++ "'"
  | repeatedId id => "duplicate family id " ++ toString id.toNat
  | repeatedVariant v => "variant " ++ toString v.toNat ++ " is declared by more than one family"

/-- A span has a step and does not end before it starts. -/
def Span.validate (s : Span) : Except DocumentFault Unit :=
  if s.step = 0 then .error (.zeroStep s)
  else if s.last < s.first then .error (.reversedSpan s)
  else .ok ()

namespace Declaration

/-- The catalog that the spans write out. -/
def catalog (d : Declaration) : Except DocumentFault Catalog :=
  match Catalog.ofTiers (d.spans.flatMap Span.values) d.freeTiers with
  | .ok c => .ok c
  | .error e => .error (.catalog d.name e)

/-- The default limit, if any, is one of the catalog's tiers. -/
def validateLimit (d : Declaration) : Except DocumentFault Unit := do
  let c ← d.catalog
  match d.defaults.limit with
  | none => return ()
  | some tier =>
    match c.require tier with
    | .ok _ => return ()
    | .error e => throw (.defaultLimit d.name e)

def validateRule (d : Declaration) : Except DocumentFault Unit :=
  match d.defaults.extendPolicy with
  | none => .ok ()
  | some name => if (ExtendRule.ofName? name).isSome then .ok () else .error (.unknownRule name)

/-- Checks a declaration by itself and reports the first fault. -/
def validate (d : Declaration) : Except DocumentFault Unit := do
  if d.name = "" then throw .emptyName
  if d.variants = [] then throw (.noVariants d.name)
  if d.facets = [] then throw (.noFacets d.name)
  match firstRepeated [] d.facets with
  | some f => throw (.repeatedFacet d.name f)
  | none => pure ()
  d.spans.forM Span.validate
  if .limit ∈ d.facets then d.validateLimit
  else if d.spans ≠ [] then throw (.tiersWithoutLimit d.name)
  d.validateRule

end Declaration

namespace Document

/-- Checks declarations in order, after others that used the given names, ids
and variants. -/
def validateAfter (names : List String) (ids variants : List UInt32) :
    List Declaration → Except DocumentFault Unit
  | [] => .ok ()
  | d :: rest => do
    d.validate
    if d.name ∈ names then throw (.repeatedName d.name)
    if d.id ∈ ids then throw (.repeatedId d.id)
    match firstRepeated variants d.variants with
    | some v => throw (.repeatedVariant v)
    | none => validateAfter (d.name :: names) (d.id :: ids) (d.variants ++ variants) rest

def validate (d : Document) : Except DocumentFault Unit :=
  validateAfter [] [] [] d.families

end Document
end Subscription
