/-
Aion2Hub/Storage/Notices.lean

The part of `domains/notices.ts` that a sync uses: items, snapshots and
diffs.  Each upsert looks for an existing row first and reports what it
found.
-/
import Aion2Hub.Storage.Planner

namespace Hub

open Sql

structure NoticeInput where
  source : NoticeSource
  externalId : String
  url : String
  title : String
  publishedAt : Option String
  updatedAt : Option String

def upsertNoticeItem (input : NoticeInput) (draw : Draw) : Prog String := do
  let updatedAt := input.updatedAt.getD (stamp draw.now)
  let existing ← schema.selectOne .noticeItem fun r =>
    r.source == input.source && r.externalId == input.externalId
  match nonEmpty (existing.map (·.id)) with
  | some id => do
      schema.update .noticeItem (fun r => r.id == id) fun r =>
        { r with
          url := input.url
          title := input.title
          publishedAt := input.publishedAt
          updatedAt := updatedAt }
      pure id
  | none => do
      schema.insert .abort .noticeItem
        ⟨draw.id, input.source, input.externalId, input.url, input.title, input.publishedAt,
          stamp draw.now, updatedAt⟩
      pure draw.id

def getNoticeItemByExternalId (source : NoticeSource) (externalId : String) :
    Prog (Option (String × String)) := do
  let row ← schema.selectOne .noticeItem fun r =>
    r.source == source && r.externalId == externalId
  pure (row.map fun r => (r.id, r.updatedAt))

def getLatestSnapshot (noticeItemId : String) : Prog (Option NoticeSnapshot) := do
  let rows ← schema.selectBy .noticeSnapshot (fun r => r.noticeItemId == noticeItemId)
    (desc (·.fetchedAt) anyOrder)
  pure rows.head?

structure SnapshotInput where
  noticeItemId : String
  contentHash : String
  normalizedText : String

/-- What an upsert reports: the id, the time of the row and whether it is
new. -/
structure Upserted where
  id : String
  fetchedAt : String
  inserted : Bool

def upsertSnapshot (input : SnapshotInput) (draw : Draw) : Prog Upserted := do
  let existing ← schema.selectOne .noticeSnapshot fun r =>
    r.noticeItemId == input.noticeItemId && r.contentHash == input.contentHash
  match existing.filter (·.id ≠ "") with
  | some row => pure ⟨row.id, row.fetchedAt, false⟩
  | none => do
      schema.insert .abort .noticeSnapshot
        ⟨draw.id, input.noticeItemId, stamp draw.now, input.contentHash, input.normalizedText⟩
      pure ⟨draw.id, stamp draw.now, true⟩

structure DiffInput where
  noticeItemId : String
  fromSnapshotId : String
  toSnapshotId : String
  diffJson : Js

def upsertDiff (input : DiffInput) (draw : Draw) : Prog (String × Bool) := do
  let existing ← schema.selectOne .noticeDiff fun r =>
    r.fromSnapshotId == input.fromSnapshotId && r.toSnapshotId == input.toSnapshotId
  match nonEmpty (existing.map (·.id)) with
  | some id => do
      schema.update .noticeDiff (fun r => r.id == id) fun r =>
        { r with diffJson := Js.serialise input.diffJson }
      pure (id, false)
  | none => do
      schema.insert .abort .noticeDiff
        ⟨draw.id, input.noticeItemId, input.fromSnapshotId, input.toSnapshotId,
          Js.serialise input.diffJson, stamp draw.now⟩
      pure (draw.id, true)

def getLatestDiff (noticeItemId : String) : Prog (Option NoticeDiff) := do
  let rows ← schema.selectBy .noticeDiff (fun r => r.noticeItemId == noticeItemId)
    (desc (·.createdAt) anyOrder)
  pure rows.head?

end Hub
