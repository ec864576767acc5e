import DirWatch.Proofs.Reconcile.Parents

namespace DirWatch

namespace Snapshot

variable {s : Snapshot} {e : Entry} {key : Path} {items : List Item}

theorem put_known (known : (find? key items).map Item.entry = some e) (ordered : Ordered items) :
    put e key items = items := by
  induction items with
  | nil => cases known
  | cons item rest ih =>
    obtain ⟨before, tail⟩ := List.pairwise_cons.mp ordered
    unfold put
    split
    · rename_i lt
      -- whatever comes later has a greater key, so the entry could not have been found
      have missed : find? key (item :: rest) = none := by
        apply List.find?_eq_none.mpr
        intro other listed same
        have same : compare key other.key = .eq := by simpa using same
        rcases List.mem_cons.mp listed with rfl | later
        · rw [lt] at same
          cases same
        · have less := Std.TransCmp.lt_trans lt (before other later)
          rw [same] at less
          cases less
      rw [missed] at known
      cases known
    · rename_i here
      rw [find?_cons_same item (Path.compare_eq_iff.mp here)] at known
      cases known
      rfl
    · rename_i gt
      have other : key.components ≠ item.key.components := by
        intro same
        rw [Path.compare_eq_iff.mpr same] at gt
        cases gt
      rw [find?_cons_other item other] at known
      rw [ih known tail]

theorem insert_known (known : s.get? e.path = some e) : s.insert e = s := by
  obtain ⟨root, items, ordered⟩ := s
  unfold insert insertAt
  congr
  exact put_known known ordered

end Snapshot

variable {scope : Scope} {more : List Name} {e : Entry} {es : List Entry}

namespace Reconcile

open Snapshot

variable {d : Disk} {s : Snapshot} {root : Path} {p q : List Name} {known fresh : Entry} {action : Action}
  {records : List Record}

theorem stat_of_look (looked : look d scope s q = some e) :
    d.stat s.root (.ofNames q) scope.followLinks = .ok e := by
  unfold look at looked
  cases stood : d.stat s.root (.ofNames q) scope.followLinks with
  | error error =>
    rw [stood] at looked
    cases looked
  | ok k =>
    rw [stood] at looked
    cases looked
    rfl

-- An addition at a path that is found only behind a link that is shown as itself.
def Sidelong (d : Disk) (scope : Scope) (root : Path) (r : Record) : Prop :=
  (r.action = .added ∨ r.action = .renamedTo) ∧ ∃ names e, r.path.names? = some names ∧
    scope.shows names = true ∧ d.stat root (.ofNames names) scope.followLinks = .ok e ∧
    ¬d.Direct scope root names

section Scanned

variable (scanned : scan d scope root = .ok s)
include scanned

theorem scan_sound (found : s.at? q = some e) :
    d.stat root (.ofNames q) scope.followLinks = .ok e ∧ scope.shows q = true := by
  obtain ⟨nonempty, es, entries, forest, rfl⟩ := scan_forest scanned
  obtain ⟨met, path⟩ := mem_of_forest forest found
  refine ⟨path ▸ Disk.entriesBelow_shows nonempty entries met, ?_⟩
  obtain ⟨more, place, shown⟩ := forest.showsBelow met
  obtain rfl : q = [] ++ more := Path.ofNames_injective (path.symm.trans place)
  exact (Scope.showsBelow_iff rfl (.inl rfl) shown.1).mp shown

theorem scan_direct (found : s.at? q = some e) : d.Direct scope root q := by
  intro above k top up proper there
  have tracked := tracked_scan scanned
  obtain ⟨dir, seen, isDir⟩ := (housed_scan scanned).above tracked.closed top up proper (by rw [found]; rfl)
  rw [(scan_sound scanned seen).1] at there
  cases there
  exact isDir

theorem scan_onward (follow : scope.followLinks = true) (found : s.at? q = some e) : d.Onward root [] [] q := by
  obtain ⟨nonempty, es, entries, forest, rfl⟩ := scan_forest scanned
  obtain ⟨met, path⟩ := mem_of_forest forest found
  exact Disk.entriesBelow_onward nonempty entries follow met path

-- And the scan has found whatever a lookup shows, but for what stands behind links, or behind a way back.
theorem scan_complete_of_onward (onward : scope.followLinks = true → d.Onward root [] [] q)
    (shown : scope.shows q = true) (direct : d.Direct scope root q)
    (found : d.stat root (.ofNames q) scope.followLinks = .ok e) : s.at? q = some e := by
  obtain ⟨nonempty, es, entries, forest, rfl⟩ := scan_forest scanned
  have top := (Scope.shows_iff.mp shown).1
  have met := @Disk.mem_entriesBelow_of_onward d scope root [] q e es nonempty entries onward top shown direct found
  obtain ⟨f, _, entry⟩ := Disk.lookup_of_stat found
  exact at?_insertAll_mem forest.apart met (by rw [entry]; rfl)

theorem scan_complete (acyclic : scope.followLinks = true → d.Acyclic scope root)
    (shown : scope.shows q = true) (direct : d.Direct scope root q)
    (found : d.stat root (.ofNames q) scope.followLinks = .ok e) : s.at? q = some e :=
  scan_complete_of_onward scanned (fun follow => (acyclic follow).onward shown) shown direct found

theorem scan_look (found : s.at? q = some e) : look d scope s q = some e := by
  refine look_of_stat ?_
  rw [(tracked_scan scanned).rooted]
  exact (scan_sound scanned found).1

end Scanned

section Idle

variable (scanned : scan d scope root = .ok s) (acyclic : scope.followLinks = true → d.Acyclic scope root)
include scanned

theorem insert_scanned (found : s.at? q = some e) : s.insert e = s := by
  apply insert_known
  rwa [look_path (scan_look scanned found)]

section Below

variable (found : s.at? p = some known) (isDir : known.isDirectory = true)
  (entries : d.entriesBelow scope root (root.join (.ofNames p)) = .ok es)
include found isDir entries

theorem direct_below (met : e ∈ es) (path : e.path = .ofNames (p ++ more)) : d.Direct scope root (p ++ more) := by
  have nonempty := (tracked_scan scanned).nonempty
  have forest : Forest scope p none es := Disk.entriesBelow_forest nonempty entries
  intro above k top up proper there
  by_cases here : above = p
  · rw [here, (scan_sound scanned found).1] at there
    cases there
    exact isDir
  · rcases List.prefix_or_prefix_of_prefix up (List.prefix_append p more) with upper | lower
    · exact scan_direct scanned found above k top upper here there
    · obtain ⟨front, rfl⟩ := lower
      obtain ⟨back, parts⟩ := (List.prefix_append_right_inj p).mp up
      have last : back ≠ [] := by
        rintro rfl
        exact proper (by rw [← parts, List.append_nil])
      rw [← parts, ← List.append_assoc] at path
      obtain ⟨dir, listed, place, kind⟩ := forest.above met (by simpa using here) last path
      have shown := Disk.entriesBelow_shows nonempty entries listed
      rw [place, there] at shown
      cases shown
      exact kind

include acyclic in
theorem mem_below_scanned (deep : scope.recursive = true) : e ∈ es ↔ ∃ more, more ≠ [] ∧ s.at? (p ++ more) = some e := by
  have nonempty := (tracked_scan scanned).nonempty
  have forest : Forest scope p none es := Disk.entriesBelow_forest nonempty entries
  have kept := (Scope.shows_iff.mp (scan_sound scanned found).2).2.1
  constructor
  · intro met
    obtain ⟨more, path, below⟩ := forest.showsBelow met
    have shown := (Scope.showsBelow_iff kept (.inr deep) below.1).mp below
    have direct := direct_below scanned found isDir entries met path
    exact ⟨more, below.1, scan_complete scanned acyclic shown direct
      (path ▸ Disk.entriesBelow_shows nonempty entries met)⟩
  · intro given
    obtain ⟨more, some, there⟩ := given
    obtain ⟨seen, shown⟩ := scan_sound scanned there
    exact Disk.mem_entriesBelow nonempty entries acyclic some shown (scan_direct scanned there) seen

include acyclic in
theorem beforehand_scanned (deep : scope.recursive = true) : e ∈ beforehand s p ↔ e ∈ es := by
  have tracked := tracked_scan scanned
  rw [mem_beforehand tracked.keyed, ← tracked.keyed.mem_below_iff, tracked.named.mem_below_iff tracked.keyed,
    mem_below_scanned scanned acyclic found isDir entries deep]

include acyclic in
theorem corrections_idle (deep : scope.recursive = true) : corrections s p es = [] := by
  have forest : Forest scope p none es := Disk.entriesBelow_forest (tracked_scan scanned).nonempty entries
  have same (e : Entry) : e ∈ beforehand s p ↔ e ∈ es :=
    beforehand_scanned scanned acyclic found isDir entries deep
  apply merge_eq_nil sorted_beforehand sorted_afterwards
  · intro o listed
    exact ⟨o, (mem_afterwards forest).mpr ((same o).mp listed), rfl, o.differs_self⟩
  · intro n listed
    exact ⟨n, (same n).mpr ((mem_afterwards forest).mp listed), rfl⟩

end Below

include acyclic

theorem refresh_idle (found : s.at? p = some known) (isDir : known.isDirectory = true)
    (deep : scope.recursive = true) : refresh d scope s (.ofNames p) = (s, []) := by
  cases entries : d.entriesBelow scope s.root (s.root.join (.ofNames p)) with
  | error e => exact refresh_error entries
  | ok es =>
    rw [refresh_ok entries]
    rw [(tracked_scan scanned).rooted] at entries
    rw [corrections_idle scanned acyclic found isDir entries deep]
    rfl

omit acyclic in
theorem modify_idle : modify d scope s q = (s, []) := by
  unfold modify
  split
  · rfl
  · rename_i known found
    rw [scan_look scanned found]
    simp [Entry.differs_self, insert_scanned scanned found]

theorem remove_idle : Reconcile.remove d scope s q = (s, []) := by
  unfold Reconcile.remove
  split
  · rfl
  · rename_i known found
    rw [scan_look scanned found]
    simp only [bne_self_eq_false, Bool.false_eq_true, if_false, Entry.differs_self,
      insert_scanned scanned found]
    split
    · rename_i isDir
      split
      · rename_i deep
        exact refresh_idle scanned acyclic found isDir deep
      · rfl
    · rfl

theorem add_idle (shown : scope.shows q = true)
    (direct : ∀ e, d.stat root (.ofNames q) scope.followLinks = .ok e → d.Direct scope root q) :
    add d scope s q = (s, []) := by
  unfold add
  split
  · rfl
  · rename_i fresh looked
    have there : d.stat root (.ofNames q) scope.followLinks = .ok fresh :=
      (tracked_scan scanned).rooted ▸ stat_of_look looked
    have found : s.get? (.ofNames q) = some fresh :=
      scan_complete scanned acyclic shown (direct fresh there) there
    rw [found]
    simp [Entry.differs_self]

theorem apply_idle (below : q ≠ [])
    (direct : action = .added ∨ action = .renamedTo → scope.shows q = true →
      ∀ e, d.stat root (.ofNames q) scope.followLinks = .ok e → d.Direct scope root q) :
    apply d scope s action q = (s, []) := by
  cases shown : scope.shows q with
  | false => exact apply_hidden below shown
  | true =>
    rw [apply_shown shown]
    cases action with
    | added => exact add_idle scanned acyclic shown (direct (.inl rfl) shown)
    | renamedTo => exact add_idle scanned acyclic shown (direct (.inr rfl) shown)
    | removed => exact remove_idle scanned acyclic
    | renamedFrom => exact remove_idle scanned acyclic
    | modified => exact modify_idle scanned

theorem hint_idle {r : Record} (below : q ≠ []) (path : r.path.names? = some q)
    (straight : scope.followLinks = false → ¬Sidelong d scope root r) :
    apply d scope s r.action q = (s, []) := by
  refine apply_idle scanned acyclic below fun arrives shown e found => ?_
  cases follow : scope.followLinks with
  | true => exact Disk.direct_of_followed (tracked_scan scanned).nonempty follow found
  | false =>
    by_contra indirect
    exact straight follow ⟨arrives, q, e, path, shown, found, indirect⟩

theorem applyAll_idle (straight : scope.followLinks = false → ∀ r ∈ records, ¬Sidelong d scope root r) :
    applyAll d scope s records = (s, []) := by
  induction records with
  | nil => rfl
  | cons r rest ih =>
    have later := ih fun follow r listed => straight follow r (List.mem_cons_of_mem _ listed)
    rcases names_cases r with other | ⟨names, below, path⟩
    · rw [applyAll_cons_other other]
      exact later
    · have idle := hint_idle scanned acyclic below path fun follow => straight follow r List.mem_cons_self
      rw [applyAll_cons below path, idle]
      simp only [later, List.append_nil]

end Idle

theorem insertNew_tells : (insertNew d scope s fresh).2 ≠ [] := by
  unfold insertNew
  dsimp only
  split
  · split <;> simp
  · simp

section Sidelong

variable (scanned : scan d scope root = .ok s)
include scanned

-- What is found behind a link is not tracked, so it is taken in, or what it stands in.
theorem add_sidelong (found : d.stat root (.ofNames q) scope.followLinks = .ok e)
    (indirect : ¬d.Direct scope root q) : (add d scope s q).2 ≠ [] := by
  have tracked := tracked_scan scanned
  have untracked : s.at? q = none := by
    by_contra present
    obtain ⟨k, there⟩ := Option.ne_none_iff_exists'.mp present
    exact indirect (scan_direct scanned there)
  have looked : look d scope s q = some e := look_of_stat (by rwa [tracked.rooted])
  unfold add
  rw [looked, show s.get? (.ofNames q) = none from untracked]
  dsimp only
  cases missing : missingAncestor s q with
  | none => exact insertNew_tells
  | some a =>
    have upper := @missingAncestor_spec s q tracked.closed
    rw [missing] at upper
    obtain ⟨top, up, proper, _⟩ := upper
    obtain ⟨f, led, _⟩ := Disk.lookup_of_stat found
    obtain ⟨g, there⟩ := Disk.lookup_above tracked.nonempty top up proper led scope.followLinks
    have seen : look d scope s a = some (.ofNode (.ofNames a) g.node) :=
      look_of_stat (by rw [tracked.rooted]; exact Disk.stat_ok there)
    simp only [seen]
    exact insertNew_tells

theorem applyAll_sidelong (acyclic : scope.followLinks = true → d.Acyclic scope root) {r : Record}
    (listed : r ∈ records) (sidelong : Sidelong d scope root r) : (applyAll d scope s records).2 ≠ [] := by
  induction records with
  | nil => cases listed
  | cons first rest ih =>
    rcases names_cases first with other | ⟨names, below, path⟩
    · rw [applyAll_cons_other other]
      rcases List.mem_cons.mp listed with rfl | later
      · obtain ⟨_, q, e, path, shown, _⟩ := sidelong
        have top := (Scope.shows_iff.mp shown).1
        rcases other with none | none <;> rw [path] at none <;> cases none
        exact absurd rfl top
      · exact ih later
    · rw [applyAll_cons below path]
      by_cases here : Sidelong d scope root first
      · obtain ⟨arrives, q, e, same, shown, found, indirect⟩ := here
        rw [path] at same
        cases same
        have told : (apply d scope s first.action names).2 ≠ [] := by
          rw [apply_shown shown]
          rcases arrives with action | action <;> rw [action] <;> exact add_sidelong scanned found indirect
        simp [told]
      · have idle := hint_idle scanned acyclic below path fun _ => here
        rw [idle]
        rcases List.mem_cons.mp listed with rfl | later
        · exact absurd sidelong here
        · exact ih later

-- A snapshot that a scan has just made stays as it is, and no change is reported, whatever a batch says, but
-- for additions behind links that are not followed: each batch with one of those reports something.
theorem scan_left_alone (acyclic : scope.followLinks = true → d.Acyclic scope root) :
    batch d scope s records = ⟨s, [], false⟩ ↔
      (scope.followLinks = false → ∀ r ∈ records, ¬Sidelong d scope root r) := by
  have there : d.isDir s.root = true := (tracked_scan scanned).rooted ▸ isDir_of_scan scanned
  constructor
  · intro idle _ r listed sidelong
    apply applyAll_sidelong scanned acyclic listed sidelong
    have silent := congrArg Outcome.changes idle
    simpa [batch, there] using silent
  · intro straight
    unfold batch
    rw [applyAll_idle scanned acyclic straight]
    simp [there]

end Sidelong

namespace Sample

def shortcut : Name := ⟨[108], by decide⟩

def linked : Disk := ⟨.epoch, .dir top .epoch (.dir name .epoch (.file name 1 .epoch .done)
  (.link shortcut (.ofName name) .epoch .done)) .done, by decide⟩

def told : List Record := [⟨.removed, .ofName name⟩, ⟨.added, .ofName shortcut⟩]

def through : Scope := { whole with followLinks := true }

theorem eq_nil_of_above_name {above : List Name} {n : Name} (up : above <+: [n]) (proper : above ≠ [n]) :
    above = [] := by
  rcases List.prefix_cons_iff.mp up with rfl | ⟨rest, rfl, empty⟩
  · rfl
  · rw [List.prefix_nil.mp empty] at proper
    exact absurd rfl proper

-- Below the watched directory there is one other, found by its own name and by the link.
theorem inner_of_dir {names : List Name} {g : Disk.Found} (below : names ≠ [])
    (found : linked.lookup (watched.join (.ofNames names)) true = .ok g) (dir : g.node.isDir = true) :
    (∃ n, names = [n]) ∧ g.place = [top, name] := by
  have nonempty : watched.bytes ≠ [] := by decide
  induction names using List.reverseRecOn generalizing g with
  | nil => exact absurd rfl below
  | append_singleton front n ih =>
    by_cases first : front = []
    · subst first
      have looked : linked.lookup (watched.join (.ofNames [])) true = .ok ⟨[top], _, _⟩ := rfl
      rw [Disk.lookup_child nonempty looked] at found
      split at found
      · cases found
      · obtain ⟨node, listed⟩ := Disk.listed_of_resolve (d := linked) rfl found
        have known : name = n ∨ shortcut = n := by
          by_contra other
          obtain ⟨inner, link⟩ := not_or.mp other
          simp [Listing.find?, inner, link] at listed
        rcases known with rfl | rfl
        · cases found.symm.trans (show _ = Except.ok ⟨[top, name], _, _⟩ from rfl)
          exact ⟨⟨name, rfl⟩, rfl⟩
        · cases found.symm.trans (show _ = Except.ok ⟨[top, name], _, _⟩ from rfl)
          exact ⟨⟨shortcut, rfl⟩, rfl⟩
    · -- what stands in the inner directory is a file
      obtain ⟨place, t, inside, budget, looked⟩ :=
        Disk.isDir_iff.mp (Disk.isDir_above nonempty (List.prefix_append front [n]) (by simp) found)
      obtain ⟨_, rfl⟩ := ih first looked rfl
      have here := Disk.at?_of_lookup looked
      cases here.symm.trans (show _ = some (Node.dir .epoch (.file name 1 .epoch .done)) from rfl)
      rw [Disk.lookup_child nonempty looked] at found
      split at found
      · cases found
      · obtain ⟨node, listed⟩ := Disk.listed_of_resolve here found
        obtain rfl : node = .file 1 .epoch := by
          unfold Listing.find? at listed
          split at listed <;> cases listed
          rfl
        rw [Disk.resolve_child here listed (.inr fun _ _ link => by cases link)] at found
        cases found
        cases dir

theorem acyclic_linked : linked.Acyclic through watched := by
  intro above names f g _ up proper found there dir same
  have below : names ≠ [] := by
    rintro rfl
    exact proper (List.prefix_nil.mp up)
  obtain ⟨⟨n, rfl⟩, place⟩ := inner_of_dir below there dir
  obtain rfl := eq_nil_of_above_name up proper
  have here : linked.lookup (watched.join (.ofNames [])) true = .ok ⟨[top], _, _⟩ := rfl
  rw [here] at found
  cases found
  rw [place] at same
  cases same

end Sample

theorem scan_left_alone_linked : (∃ s, scan Sample.linked Sample.whole Sample.watched = .ok s ∧
      s.contains (.ofName Sample.shortcut) = true ∧
      batch Sample.linked Sample.whole s Sample.told = ⟨s, [], false⟩) ∧
    ∃ s, scan Sample.linked Sample.through Sample.watched = .ok s ∧
      s.contains (.ofNames [Sample.shortcut, Sample.name]) = true ∧
      batch Sample.linked Sample.through s (⟨.added, .ofNames [Sample.shortcut, Sample.name]⟩ :: Sample.told) =
        ⟨s, [], false⟩ := by
  have scanned : scan Sample.linked Sample.whole Sample.watched = .ok _ := rfl
  have followed : scan Sample.linked Sample.through Sample.watched = .ok _ := rfl
  refine ⟨⟨_, scanned, rfl, (scan_left_alone scanned fun follow => ?_).mpr fun _ r listed sidelong => ?_⟩,
    _, followed, rfl, (scan_left_alone followed fun _ => Sample.acyclic_linked).mpr fun shown => ?_⟩
  · cases follow
  · obtain ⟨arrives, names, e, path, _, _, indirect⟩ := sidelong
    simp only [Sample.told, List.mem_cons, List.not_mem_nil, or_false] at listed
    rcases listed with rfl | rfl
    · rcases arrives with arrives | arrives <;> cases arrives
    · -- one name below the root there is nothing on the way
      cases path
      exact indirect fun above k top up proper => absurd (Sample.eq_nil_of_above_name up proper) top
  · cases shown

-- What stands behind the link is tracked once an addition there is reported, and no scan would find it.
theorem entry_tracked_behind_a_link : ∃ s e, scan Sample.linked Sample.whole Sample.watched = .ok s ∧
    e.path = .ofNames [Sample.shortcut, Sample.name] ∧ s.contains e.path = false ∧
    batch Sample.linked Sample.whole s [⟨.added, .ofNames [Sample.shortcut, Sample.name]⟩] =
      ⟨s.insert e, [.added e], false⟩ :=
  ⟨_, ⟨.ofNames [Sample.shortcut, Sample.name], false, some .epoch, 1⟩, rfl, rfl, rfl, rfl⟩

end Reconcile

end DirWatch
