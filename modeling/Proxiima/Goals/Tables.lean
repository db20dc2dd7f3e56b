import Proxiima.Goals.StoredDeclarations

/-!
# Goal tables

The rows the goal verbs read and write: a head for each series, the immutable versions, the
unique index of the versions by owner and request, and the declaration each request is replayed
from.
-/

namespace Proxiima.Goals

open ReadCommitted
open Collaboration (GoalState)
open Serde (Json)

inductive Key where
  | goalHead (handle : Uuid)
  | goal (t : Uuid)
  /-- The unique index of `goal` on owner and request. -/
  | request (ownerId : Uuid) (requestId : String)
  | declaration (ownerId : Uuid) (requestId : String)
  deriving DecidableEq

structure GoalHead where
  schemaId : String
  ownerId : Uuid
  t : Uuid
  deriving DecidableEq

structure GoalRow where
  handle : Uuid
  ownerId : Uuid
  title : String
  text : Option String
  state : GoalState
  requestId : String
  closeFactT : Option Uuid
  motivatedBy : List Uuid
  dependencyT : List Uuid
  evidenceT : List Uuid
  writeActT : Option Uuid
  parentHandle : Option Uuid
  deriving DecidableEq

/-- A row of `goal_replay_declaration`. -/
structure DeclarationRow (J : Type) where
  goalT : Uuid
  declaration : Json J
  edgeCount : ℕ

abbrev Row (J : Type) : Key → Type
  | .goalHead _ => GoalHead
  | .goal _ => GoalRow
  | .request _ _ => Uuid
  | .declaration _ _ => DeclarationRow J

abbrev Tables (J : Type) := Log (Row J)

namespace Tables

variable {J : Type} (v : Tables J)

def version (t : Uuid) : Option GoalRow := get v (.goal t)

def admitted (owner : Uuid) (requestId : String) : Option Uuid := get v (.request owner requestId)

def declared (owner : Uuid) (requestId : String) : Option (DeclarationRow J) :=
  get v (.declaration owner requestId)

end Tables

end Proxiima.Goals
