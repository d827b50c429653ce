import MailStack.Imap.Terms
import MailStack.Lib.Positions

/-! The untagged responses by which a session tells its client how the selected folder changes, with
what the session itself shows afterwards. What the store answers is an argument. -/

namespace MailStack.Imap

open Lib Maildir Handler

namespace SequenceSet

/-- The runs that `fromValues` writes. -/
def rangesOf (values : List Nat) : List (Nat × Nat) :=
  match sorted values with
  | [] => []
  | first :: rest => runs first first rest

theorem fromValues_eq (values : List Nat) :
    fromValues values = ",".intercalate ((rangesOf values).map renderRun) := by
  unfold fromValues rangesOf
  cases sorted values <;> rfl

def covers (ranges : List (Nat × Nat)) (value : Nat) : Bool :=
  ranges.any fun range => range.1 ≤ value && value ≤ range.2

theorem sorted_ascending (values : List Nat) : (sorted values).Pairwise (· < ·) := by
  have le : (sorted values).Pairwise (· ≤ ·) := List.pairwise_mergeSort' (· ≤ ·) values.dedup
  have nodup : (sorted values).Nodup :=
    (List.mergeSort_perm _ _).nodup_iff.mpr (List.nodup_dedup values)
  exact (le.and nodup).imp fun h => lt_of_le_of_ne h.1 h.2

theorem covers_runs {start stop : Nat} {rest : List Nat} (le : start ≤ stop)
    (ascending : (stop :: rest).Pairwise (· < ·)) (value : Nat) :
    covers (runs start stop rest) value = true ↔ start ≤ value ∧ value ≤ stop ∨ value ∈ rest := by
  induction rest generalizing start stop with
  | nil => simp [runs, covers]
  | cons next rest ih =>
    have less : stop < next := (List.pairwise_cons.mp ascending).1 next List.mem_cons_self
    have later := (List.pairwise_cons.mp ascending).2
    unfold runs
    split_ifs with adjacent
    · have consecutive : next = stop + 1 := by
        unfold satAdd at adjacent
        omega
      have grown : start ≤ value ∧ value ≤ next ↔
          (start ≤ value ∧ value ≤ stop) ∨ value = next := by
        omega
      rw [ih (le.trans less.le) later, List.mem_cons, grown, or_assoc]
    · have first : covers ((start, stop) :: runs next next rest) value = true ↔
          (start ≤ value ∧ value ≤ stop) ∨ covers (runs next next rest) value = true := by
        simp [covers]
      rw [first, ih (le_refl next) later, List.mem_cons]
      have same : next ≤ value ∧ value ≤ next ↔ value = next := by omega
      rw [same]

theorem covers_rangesOf (values : List Nat) (value : Nat) :
    covers (rangesOf values) value = true ↔ value ∈ values := by
  have mem : value ∈ sorted values ↔ value ∈ values := by simp [sorted]
  have ascending := sorted_ascending values
  rw [← mem]
  unfold rangesOf
  cases eq : sorted values with
  | nil => simp [covers]
  | cons first rest =>
    rw [eq] at ascending
    rw [covers_runs (le_refl first) ascending, List.mem_cons]
    have same : first ≤ value ∧ value ≤ first ↔ value = first := by omega
    rw [same]

end SequenceSet

inductive Response
  | ok (text : String)
  | expunge (number : Nat)
  | vanished (ranges : List (Nat × Nat))
  | total (count : Nat)
  | recent (count : Nat)
  | fetch (number : Nat) (flags : FlagSet) (uid modseq : Option Nat)

structure Enabled where
  condstore : Bool
  qresync : Bool

def removalResponses (qresync : Bool) (numbers uids : List Nat) : List Response :=
  if qresync then
    if uids.isEmpty then [] else [.vanished (SequenceSet.rangesOf uids)]
  else (descending numbers).map .expunge

def findUid (messages : List MessageMeta) (uid : Nat) : Option MessageMeta :=
  messages.find? (·.uid = uid)

/-- The FETCH response for a message that was shown with other flags, with the number that it has
now. -/
def flagResponse (condstore : Bool) (old : List MessageMeta) (m : MessageMeta) (number : Nat) :
    Option Response :=
  match findUid old m.uid with
  | none => none
  | some o =>
    if o.flags = m.flags then none
    else some (.fetch number m.flags none (if condstore then some m.modseq else none))

def flagResponses (condstore : Bool) (old : List MessageMeta) (messages : List MessageMeta) :
    List Response :=
  (messages.zipIdx 1).filterMap fun e => flagResponse condstore old e.1 e.2

/-- What a client is told when a folder that it has selected is opened again. -/
def refreshResponses (enabled : Enabled) (view : View) (state : FolderState) : List Response :=
  let recent := (state.messages.filter (·.recent)).length
  if state.uidvalidity ≠ view.uidvalidity then
    [.ok ("[UIDVALIDITY " ++ toString state.uidvalidity ++ "] UIDs valid"),
      .total state.messages.length, .recent recent] ++
      if enabled.condstore then
        [.ok ("[HIGHESTMODSEQ " ++ toString state.highestModseq ++ "] HIGHESTMODSEQ")]
      else []
  else
    let gone (m : MessageMeta) : Bool := (findUid state.messages m.uid).isNone
    removalResponses enabled.qresync (positionsFrom 1 gone view.messages)
        ((view.messages.filter gone).map (·.uid)) ++
      (if state.messages.length ≠ view.messages.length ||
          state.messages.any fun m => (findUid view.messages m.uid).isNone then
        [.total state.messages.length]
      else []) ++
      (if 0 < recent then [.recent recent] else []) ++
      flagResponses enabled.condstore view.messages state.messages

namespace View

/-- The view of a folder that was opened. -/
def reopened (view : View) (state : FolderState) (stamp : Nat) : View :=
  { view with
    uidvalidity := state.uidvalidity
    uidnext := state.uidnext
    highestModseq := state.highestModseq
    messages := state.messages
    stamp := some stamp
    skippedStamps := 0 }

def update (view : View) (uid : Nat) (flags : FlagSet) (modseq : Nat) : View :=
  { view with
    messages := updateMessage uid flags modseq view.messages
    highestModseq := max view.highestModseq modseq }

def forget (view : View) (uids : List Nat) : View :=
  { view with messages := view.messages.filter fun m => !uids.contains m.uid }

/-- `refresh_selected`, where the folder shows the time stamp and opens as `opened` says. -/
def refresh (enabled : Enabled) (stamp : Nat) (opened : Except MailError FolderState)
    (view : View) : View × List Response :=
  if view.stamp = some stamp ∧ view.skippedStamps < 9 then
    ({ view with skippedStamps := view.skippedStamps + 1 }, [])
  else
    match opened with
    | .error _ => (view, [])
    | .ok state => (view.reopened state stamp, refreshResponses enabled view state)

def doomed (view : View) (restrict : SequenceSet) (m : MessageMeta) : Bool :=
  isDeleted m && restrict.contains m.uid view.maxUid

/-- EXPUNGE and UID EXPUNGE, where the store answers `removed`. -/
def expunge (enabled : Enabled) (restrict : SequenceSet) (removed : Except MailError Nat)
    (view : View) : View × List Response :=
  let uids := (view.messages.filter (view.doomed restrict)).map (·.uid)
  let done := (view.forget uids,
    removalResponses enabled.qresync (positionsFrom 1 (view.doomed restrict) view.messages) uids)
  if uids.isEmpty then done
  else
    match removed with
    | .error _ => (view, [])
    | .ok _ => done

def numberOf (view : View) (uid : Nat) : Option Nat :=
  (view.messages.findIdx? (·.uid = uid)).map (· + 1)

/-- COPYUID, where `copies` are the UIDVALIDITY of the target and the UIDs there. -/
def copyUid (uids : List Nat) (copies : Nat × List Nat) : String :=
  "[COPYUID " ++ toString copies.1 ++ " " ++ SequenceSet.fromValues uids ++ " " ++
    SequenceSet.fromValues copies.2 ++ "]"

/-- MOVE of messages of the view, once its arguments are checked, where the store answers `copied`
and `removed`. -/
def move (enabled : Enabled) (uids : List Nat) (copied : Except MailError (Nat × List Nat))
    (removed : Except MailError Nat) (view : View) : View × List Response :=
  if uids.isEmpty then (view, [])
  else
    match copied, removed with
    | .ok copies, .ok _ =>
      (view.forget uids,
        .ok (copyUid uids copies ++ " MOVE completed") ::
          if enabled.qresync then [.vanished (SequenceSet.rangesOf uids)]
          else (descending (uids.filterMap view.numberOf)).map .expunge)
    | _, _ => (view, [])

/-- COPY, once its arguments are checked. `here` tells whether it copies to the selected folder. -/
def copy (enabled : Enabled) (uids : List Nat) (copied : Except MailError (Nat × List Nat))
    (here : Bool) (stamp : Nat) (opened : Except MailError FolderState) (view : View) :
    View × List Response :=
  if uids.isEmpty then (view, [])
  else
    match copied with
    | .error _ => (view, [])
    | .ok _ => if here then refresh enabled stamp opened { view with stamp := none } else (view, [])

/-- The loop of a STORE that is not silent. `answers` are those of the store to the changes of
flags, each the number that the change takes. -/
def storeEach (enabled : Enabled) (job : StoreJob) :
    List (Nat × Nat) → List (Except MailError Nat) → View → View × List Response
  | [], _, view => (view, [])
  | (number, uid) :: rest, answers, view =>
    match view.messages[number - 1]? with
    | none => storeEach enabled job rest answers view
    | some m =>
      if job.unchangedSince.any fun limit => m.modseq > limit then
        storeEach enabled job rest answers view
      else
        match answers with
        | .ok modseq :: later =>
          let flags := job.apply m.flags
          let after := storeEach enabled job rest later (view.update uid flags modseq)
          (after.1,
            .fetch number flags (if job.uidMode then some uid else none)
              (if enabled.condstore then some modseq else none) :: after.2)
        | _ => (view, [])

def targetUids (view : View) (set : SequenceSet) (uidMode : Bool) : List Nat :=
  (view.targets set uidMode).map fun (_, m) => m.uid

end View

end MailStack.Imap
