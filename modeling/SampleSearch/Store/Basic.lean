import SampleSearch.Store.Change

/-! # Repositories

A repository is bare until its tables are created, and everything asked of a bare one fails.
-/

namespace SampleSearch

inductive Store
  | bare
  | ready (db : Database)

namespace Store

def database : Store → Except SearchError Database
  | bare => storageFailure "no such table"
  | ready db => .ok db

/-- Creates the tables unless they are there. -/
def prepared : Store → Store
  | bare => ready .blank
  | s => s

def apply (s : Store) (c : Change) : Store × Except SearchError Nat :=
  match s with
  | bare =>
    match c with
    | .insert _ [] => (bare, .ok 0)
    | _ => (bare, storageFailure "no such table")
  | ready db => (db.apply c).map ready id

end Store

end SampleSearch
