import DirWatch.Proofs.Disk.Descent
import DirWatch.Proofs.Reconcile.Report

namespace DirWatch

variable {d : Disk} {scope : Scope} {s : Snapshot} {root p : Path} {names : List Name} {records : List Record}

namespace Snapshot

theorem perm_removeSubtree : (s.subtree p ++ (s.removeSubtree p).entries).Perm s.entries := by
  have parts := List.filter_append_perm (fun item : Item => item.key.startsWith p) s.items
  have taken : (s.subtree p).Perm ((s.items.filter fun item => item.key.startsWith p).map Item.entry) :=
    List.reverse_perm _
  refine (taken.append_right _).trans ?_
  unfold entries removeSubtree
  rw [← List.map_append]
  exact parts.map Item.entry

theorem removeSubtree_top : s.removeSubtree .empty = .empty s.root := by
  have none : s.items.filter (fun item => !item.key.startsWith .empty) = [] := by
    apply List.filter_eq_nil_iff.mpr
    intro item _
    simp [Path.startsWith, show Path.empty.components = [] from rfl]
  simp [removeSubtree, empty, none]

end Snapshot

namespace Reconcile

open Snapshot

variable {step : Step} {e : LookupError}

theorem look_lost (lost : d.isDir s.root = false) (nonempty : s.root.bytes ≠ []) (below : names ≠ []) :
    look d scope s names = none := by
  have missing := @Disk.lookup_below_leaf d s.root names scope.followLinks lost nonempty below
  unfold look Disk.stat
  cases looked : d.lookup (s.root.join (.ofNames names)) scope.followLinks with
  | error e => rfl
  | ok f =>
    rw [looked] at missing
    cases missing

-- Entries were taken out, each of them was reported, and nothing else happened.
def Sheds (s : Snapshot) (changes : List Change) (t : Snapshot) : Prop :=
  ∃ gone : List Entry, changes = gone.map .removed ∧ (gone ++ t.entries).Perm s.entries

theorem Sheds.refl (s : Snapshot) : Sheds s [] s := ⟨[], rfl, .refl _⟩

theorem Sheds.trans {t u : Snapshot} {one two : List Change} (first : Sheds s one t) (second : Sheds t two u) :
    Sheds s (one ++ two) u := by
  obtain ⟨gone, rfl, parts⟩ := first
  obtain ⟨more, rfl, rest⟩ := second
  refine ⟨gone ++ more, (List.map_append ..).symm, ?_⟩
  rw [List.append_assoc]
  exact (rest.append_left gone).trans parts

theorem sheds_dropSubtree (p : Path) : Sheds s (dropSubtree s p).2 (dropSubtree s p).1 :=
  ⟨s.subtree p, rfl, perm_removeSubtree⟩

theorem Effect.sheds (blind : ∀ names, names ≠ [] → look d scope s names = none)
    (effect : Effect d scope s step) : Sheds s step.2 step.1 := by
  have unseen {names : List Name} {fresh : Entry} (shown : scope.shows names = true)
      (seen : look d scope s names = some fresh) : False := by
    rw [blind names (Scope.shows_iff.mp shown).1] at seen
    cases seen
  cases effect with
  | idle => exact .refl s
  | drop => exact sheds_dropSubtree _
  | grow shown seen => exact (unseen shown seen).elim
  | replace shown _ seen => exact (unseen shown seen).elim
  | update shown _ seen => exact (unseen shown seen).elim
  | touch shown _ seen => exact (unseen shown seen).elim
  | refresh shown _ seen => exact (unseen shown seen).elim

theorem applyAll_sheds (tracked : s.Tracked root) (lost : d.isDir root = false) (records : List Record) :
    Sheds s (applyAll d scope s records).2 (applyAll d scope s records).1 := by
  induction records generalizing s with
  | nil => exact .refl s
  | cons r rest ih =>
    rcases names_cases r with other | ⟨names, below, path⟩
    · rw [applyAll_cons_other other]
      exact ih tracked
    · rw [applyAll_cons below path]
      have based : s.root.bytes ≠ [] := tracked.rooted ▸ tracked.nonempty
      have effect : Effect d scope s (apply d scope s r.action names) :=
        apply_effect based tracked.closed below r.action
      have blind (q : List Name) (some : q ≠ []) : look d scope s q = none :=
        look_lost (tracked.rooted ▸ lost) based some
      exact (effect.sheds blind).trans (ih (effect.replays tracked).2)

theorem rootLost_sheds {t : Snapshot} {changes : List Change} (sheds : Sheds s changes t) :
    ∃ gone : List Entry, gone.Perm s.entries ∧
      rootLost t changes = ⟨.empty t.root, gone.map .removed, true⟩ := by
  obtain ⟨gone, told, all⟩ := sheds.trans (sheds_dropSubtree .empty)
  have bare : (dropSubtree t .empty).1 = .empty t.root := removeSubtree_top
  rw [bare] at all
  refine ⟨gone, by simpa [entries, empty] using all, ?_⟩
  rw [← told, ← bare]
  rfl

theorem batch_lost (tracked : s.Tracked root) (lost : d.isDir root = false)
    (asked : touchesRoot records = true) : ∃ gone : List Entry, gone.Perm s.entries ∧
      batch d scope s records = ⟨.empty root, gone.map .removed, true⟩ := by
  have sheds := @applyAll_sheds d scope s root tracked lost records
  have kept := (@applyAll_replays d scope s root tracked records).2
  obtain ⟨gone, all, became⟩ := rootLost_sheds sheds
  refine ⟨gone, all, ?_⟩
  rw [← kept.rooted, ← became]
  unfold batch
  simp only [asked, tracked.rooted, lost, Bool.not_false, Bool.and_true, if_true]

theorem rescan_none : ∃ gone : List Entry, gone.Perm s.entries ∧
    rootLost s [] = ⟨.empty s.root, gone.map .removed, true⟩ := rootLost_sheds (.refl s)

theorem rescan_lost (lost : d.isDir s.root = false) : rescan d scope s =
    match d.lookup s.root true with
    | .ok _ | .error .missing => .ok (rootLost s [])
    | .error e => .error (.scan s.root e.fault) := by
  unfold Disk.isDir at lost
  unfold rescan scan
  cases looked : d.lookup s.root true with
  | ok found =>
    rw [looked] at lost
    have leaf : found.node.isDir = false := lost
    simp only [leaf, Bool.false_eq_true, if_false]
  | error e => cases e <;> rfl

end Reconcile

end DirWatch
