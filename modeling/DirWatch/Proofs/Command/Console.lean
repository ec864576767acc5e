import DirWatch.Command.Run
import DirWatch.Proofs.Monitor.Farewell
import Mathlib.Data.List.Perm.Subperm

namespace DirWatch.Command

open Monitor

variable {r : Report} {roots : List (Handle × Path)} {ns before after : List Notice} {n : Notice} {h : Handle}
  {path : Path} {asJson : Bool}

def Console.fed (r : Report) (ns : List Notice) : Console := ns.foldl take (start r)

theorem Console.fed_concat : fed r (ns ++ [n]) = (fed r ns).take n := by
  simp [fed]

def printed (r : Report) : Notice → List String
  | .changed h changes => (r.lines? h changes).getD []
  | _ => []

def Printable (r : Report) (ns : List Notice) : Prop :=
  ∀ h changes, .changed h changes ∈ ns → (r.lines? h changes).isSome = true

theorem rootOf_of_mem (apart : (roots.map Prod.fst).Nodup) (given : (h, path) ∈ roots) :
    (⟨asJson, roots⟩ : Report).rootOf h = path := by
  have found : roots.reverse.lookup h = some path := by
    have turned : (roots.reverse.map Prod.fst).Nodup := by
      rw [List.map_reverse]
      exact List.nodup_reverse.mpr apart
    have listed : (h, path) ∈ roots.reverse := List.mem_reverse.mpr given
    generalize roots.reverse = all at turned listed
    induction all with
    | nil => cases listed
    | cons first rest ih =>
      obtain ⟨fresh, later⟩ := List.nodup_cons.mp turned
      rw [List.lookup_cons]
      rcases List.mem_cons.mp listed with rfl | behind
      · simp
      · have other : (h == first.1) = false := by
          rw [beq_eq_false_iff_ne]
          exact fun same => fresh (same ▸ List.mem_map_of_mem behind)
        rw [other]
        exact ih later behind
  simp [Report.rootOf, found]

theorem register_accepted {s : Session} {recursive : Bool} {reactions : List Reaction} (accepts : s.stopping = false) :
    ∃ next, s.register path recursive reactions = (next, .ok ⟨s.nextHandle⟩) ∧
      next.nextHandle = s.nextHandle + 1 ∧ next.stopping = false := by
  have settled (s : Session) : s.settle.nextHandle = s.nextHandle ∧ s.settle.stopping = s.stopping := by
    unfold Session.settle
    split
    · exact ⟨rfl, rfl⟩
    · exact ⟨rfl, rfl⟩
  unfold Session.register
  simp only [accepts, Bool.false_eq_true, if_false]
  exact ⟨_, rfl, (settled _).1, (settled _).2⟩

theorem registerAll_roots {s : Session} {recursive : Bool} {paths : List Path} (accepts : s.stopping = false) :
    (registerAll s recursive paths).2 =
      paths.zipIdx.map fun (path, i) => (⟨s.nextHandle + .ofNat i⟩, path) := by
  induction paths generalizing s with
  | nil => rfl
  | cons path rest ih =>
    obtain ⟨next, registered, number, still⟩ := @register_accepted path s recursive [] accepts
    rw [registerAll, registered]
    dsimp only
    rw [ih still, number, List.zipIdx_cons', List.map_cons, List.map_map]
    simp [Function.comp_def, UInt64.add_assoc, UInt64.add_comm 1]

theorem nodup_handles {s : Session} {recursive : Bool} {paths : List Path} (accepts : s.stopping = false)
    (few : paths.length ≤ UInt64.size) : ((registerAll s recursive paths).2.map Prod.fst).Nodup := by
  have numbers : (registerAll s recursive paths).2.map Prod.fst =
      (List.range' 0 paths.length).map fun i => (⟨s.nextHandle + .ofNat i⟩ : Handle) := by
    rw [registerAll_roots accepts, ← List.zipIdx_map_snd, List.map_map, List.map_map]
    rfl
  rw [numbers]
  have small {i : Nat} (listed : i ∈ List.range' 0 paths.length) : i < UInt64.size :=
    Nat.lt_of_lt_of_le (by simpa using (List.mem_range'_1.mp listed).2) few
  refine List.Nodup.map_on (fun i low j high same => ?_) (List.nodup_range' 1)
  have apart := congrArg UInt64.toNat ((UInt64.add_right_inj _).mp (Handle.mk.inj same))
  rwa [UInt64.toNat_ofNat_of_lt' (small low), UInt64.toNat_ofNat_of_lt' (small high)] at apart

-- The notices reach the console in some order that the monitor has sent them in.
structure Sent (roots : List (Handle × Path)) (ns : List Notice) : Prop where
  apart : (roots.map Prod.fst).Nodup
  known : ∀ n ∈ ns, n.handle ∈ roots.map Prod.fst
  last : LastIsLast ns

theorem Sent.left (sent : Sent roots (before ++ after)) : Sent roots before :=
  ⟨sent.apart, fun n listed => sent.known n (List.mem_append_left _ listed), (List.pairwise_append.mp sent.last).1⟩

def lasts (ns : List Notice) : List Handle := (ns.filter Notice.isLast).map Notice.handle

theorem mem_lasts : h ∈ lasts ns ↔ isOver ns h = true := by
  simp [lasts, isOver_iff, and_assoc]

theorem Sent.nodup (sent : Sent roots ns) : (lasts ns).Nodup := by
  refine List.pairwise_map.mpr (List.Pairwise.imp_of_mem (fun listed _ apart => ?_) (sent.last.filter _))
  exact apart (List.mem_filter.mp listed).2

-- No notice comes of a watch that has told its last, so one watch at least is left when any notice comes.
theorem Sent.fresh (sent : Sent roots (before ++ [n])) : n.handle ∉ lasts before := by
  intro ended
  obtain ⟨k, listed, last, same⟩ := isOver_iff.mp (mem_lasts.mp ended)
  exact (List.pairwise_append.mp sent.last).2.2 k listed n (List.mem_singleton_self n) last same

theorem Sent.some_left (sent : Sent roots (before ++ [n])) : (lasts before).length < roots.length := by
  have distinct : (n.handle :: lasts before).Nodup := List.nodup_cons.mpr ⟨sent.fresh, sent.left.nodup⟩
  have inside : n.handle :: lasts before ⊆ roots.map Prod.fst := by
    intro h listed
    rcases List.mem_cons.mp listed with rfl | earlier
    · exact sent.known n (by simp)
    · obtain ⟨k, there, _, rfl⟩ := isOver_iff.mp (mem_lasts.mp earlier)
      exact sent.known k (List.mem_append_left _ there)
  have short := (List.subperm_of_subset distinct inside).length_le
  rw [List.length_cons, List.length_map] at short
  omega

theorem lasts_concat : lasts (ns ++ [n]) = if n.isLast then lasts ns ++ [n.handle] else lasts ns := by
  cases last : n.isLast <;> simp [lasts, last]

structure Console.Counts (r : Report) (ns : List Notice) (c : Console) : Prop where
  report : c.report = r
  live : c.live + (lasts ns).length = r.roots.length
  whole : c.broken = false
  output : c.output = ns.flatMap (printed r)

theorem Console.Counts.next {c : Console} (counts : c.Counts r ns) (left : (lasts ns).length < r.roots.length)
    (printable : ∀ h changes, n = .changed h changes → (r.lines? h changes).isSome = true) :
    (c.take n).Counts r (ns ++ [n]) := by
  obtain ⟨report, live, whole, output⟩ := counts
  have going : ¬(c.live = 0 ∨ c.broken = true) := by
    rw [whole]
    simp only [Bool.false_eq_true, or_false]
    omega
  unfold take
  simp only [Bool.or_eq_true, decide_eq_true_eq, going, if_false]
  cases n with
  | registered h s =>
    exact ⟨report, by simpa [lasts_concat, Notice.isLast, tell] using live, whole, by simp [printed, output, tell]⟩
  | registrationFailed h e =>
    refine ⟨report, ?_, whole, by simp [printed, output, tell]⟩
    simp only [lasts_concat, Notice.isLast, if_true, List.length_append, List.length_singleton, tell]
    omega
  | monitoringFailed h e =>
    refine ⟨report, ?_, whole, by simp [printed, output, tell]⟩
    simp only [lasts_concat, Notice.isLast, if_true, List.length_append, List.length_singleton, tell]
    omega
  | changed h changes =>
    obtain ⟨lines, shown⟩ := Option.isSome_iff_exists.mp (printable h changes rfl)
    simp only [report, shown]
    exact ⟨rfl, by simpa [lasts_concat, Notice.isLast] using live, whole, by simp [printed, output, shown]⟩

theorem Console.counts_fed (sent : Sent r.roots ns) (printable : Printable r ns) : (fed r ns).Counts r ns := by
  induction ns using List.reverseRecOn with
  | nil => exact ⟨rfl, rfl, rfl, rfl⟩
  | append_singleton before n ih =>
    rw [fed_concat]
    refine (ih sent.left fun h changes listed => ?_).next sent.some_left fun h changes same => ?_
    · exact printable h changes (List.mem_append_left _ listed)
    · exact printable h changes (by simp [same])

theorem Sent.length_lasts (sent : Sent roots ns) : (roots.filter fun r => isOver ns r.1).length = (lasts ns).length := by
  have once : ((roots.filter fun r => isOver ns r.1).map Prod.fst).Nodup :=
    (List.filter_sublist.map Prod.fst).nodup sent.apart
  have perm : ((roots.filter fun r => isOver ns r.1).map Prod.fst).Perm (lasts ns) := by
    refine (List.perm_ext_iff_of_nodup once sent.nodup).mpr fun h => ?_
    rw [mem_lasts, List.mem_map]
    constructor
    · rintro ⟨r, listed, rfl⟩
      exact (List.mem_filter.mp listed).2
    · intro ended
      obtain ⟨n, told, _, rfl⟩ := isOver_iff.mp ended
      obtain ⟨r, given, same⟩ := List.mem_map.mp (sent.known n told)
      exact ⟨r, List.mem_filter.mpr ⟨given, by simpa [same] using ended⟩, same⟩
  simpa using perm.length_eq

theorem isOver_concat : isOver (ns ++ [n]) h = (isOver ns h || (n.isLast && n.handle == h)) := by
  simp [isOver]

theorem Sent.all_isOver_iff (sent : Sent roots (before ++ [n])) : (∀ r ∈ roots, isOver (before ++ [n]) r.1 = true) ↔
    n.isLast = true ∧ ∀ r ∈ roots, r.1 ≠ n.handle → isOver before r.1 = true := by
  obtain ⟨own, given, same⟩ := List.mem_map.mp (sent.known n (by simp))
  have fresh : isOver before n.handle = false := by simpa [mem_lasts] using sent.fresh
  simp only [isOver_concat, Bool.or_eq_true, Bool.and_eq_true, beq_iff_eq]
  constructor
  · intro all
    have last : n.isLast = true := by simpa [same, fresh] using all own given
    exact ⟨last, fun r listed other => (all r listed).resolve_right fun this => other this.2.symm⟩
  · intro both
    obtain ⟨last, others⟩ := both
    intro r listed
    by_cases here : r.1 = n.handle
    · exact .inr ⟨last, here.symm⟩
    · exact .inl (others r listed here)

theorem sent_of_run {settings : Settings} {events : List Event} {m : Monitor} (apart : (roots.map Prod.fst).Nodup)
    (distinct : (registered events).Nodup) (ran : (Monitor.start settings).run events = some m)
    (asked : ∀ h ∈ registered events, h ∈ roots.map Prod.fst) : Sent roots m.notices := by
  have orderly := ((Orderly.start settings).follows distinct ran).orderly
  refine ⟨apart, fun n listed => asked n.handle ?_, orderly.lastIsLast⟩
  exact orderly.asked n.handle (.inr (List.ne_nil_of_mem (mem_noticesOf.mpr listed)))

section Run

variable {settings : Settings} {events : List Event} {m : Monitor}

-- Over every run of a monitor that is asked for these watches: the console counts those that have not
-- told their last, and none are left exactly when the last of them has. By then each change that was
-- told has been printed, in order, under the path that was given for its watch.
theorem ends_with_last_watch (apart : (roots.map Prod.fst).Nodup) (distinct : (registered events).Nodup)
    (asked : ∀ h path recursive reactions,
      Event.post (.register h path recursive reactions) ∈ events → (h, path) ∈ roots)
    (ran : (Monitor.start settings).run events = some m) (received : ns <+: m.notices)
    (printable : Printable ⟨asJson, roots⟩ ns) :
    (Console.fed ⟨asJson, roots⟩ ns).live + (roots.filter fun r => isOver ns r.1).length = roots.length ∧
      (lasts ns).Nodup ∧
      (∀ before n, ns = before ++ [n] → 0 < (Console.fed ⟨asJson, roots⟩ before).live ∧
        ((Console.fed ⟨asJson, roots⟩ ns).live = 0 ↔
          n.isLast = true ∧ ∀ r ∈ roots, r.1 ≠ n.handle → isOver before r.1 = true)) ∧
      ((Console.fed ⟨asJson, roots⟩ ns).live = 0 → ns = m.notices) ∧
      (Console.fed ⟨asJson, roots⟩ ns).broken = false ∧
      (Console.fed ⟨asJson, roots⟩ ns).output = ns.flatMap (printed ⟨asJson, roots⟩) ∧
      (∀ h path, (h, path) ∈ roots → (⟨asJson, roots⟩ : Report).rootOf h = path) ∧
      (Unrevoked events → ∀ h ∈ registered events,
        isOver m.notices h = true ↔ h ∉ m.queued ∧ m.isActive h = false) := by
  have handles : ∀ h ∈ registered events, h ∈ roots.map Prod.fst := by
    intro h listed
    obtain ⟨event, there, registers⟩ := List.mem_filterMap.mp listed
    cases event with
    | post c =>
      cases c with
      | register k path recursive reactions =>
        cases registers
        exact List.mem_map_of_mem (asked h path recursive reactions there)
      | unregister => cases registers
      | stop => cases registers
    | signal => cases registers
    | complete => cases registers
    | serve => cases registers
    | drain => cases registers
  have all := sent_of_run apart distinct ran handles
  obtain ⟨later, whole⟩ := received
  have sent : Sent roots ns := (whole ▸ all : Sent roots (ns ++ later)).left
  have counts := Console.counts_fed (r := ⟨asJson, roots⟩) sent printable
  have live : (Console.fed ⟨asJson, roots⟩ ns).live + (lasts ns).length = roots.length := counts.live
  refine ⟨sent.length_lasts ▸ live, sent.nodup, fun before n cut => ?_, fun none => ?_, counts.whole,
    counts.output, fun h path given => rootOf_of_mem apart given, fun unasked h listed => ?_⟩
  · subst cut
    have early := Console.counts_fed (r := ⟨asJson, roots⟩) sent.left fun h changes told =>
      printable h changes (List.mem_append_left _ told)
    have some := sent.some_left
    have left : (Console.fed ⟨asJson, roots⟩ before).live + (lasts before).length = roots.length := early.live
    refine ⟨by omega, ?_⟩
    rw [← sent.all_isOver_iff]
    have filtered := sent.length_lasts
    constructor
    · intro none
      have full : (roots.filter fun r => isOver (before ++ [n]) r.1).length = roots.length := by omega
      exact List.length_filter_eq_length_iff.mp full
    · intro ended
      have full := List.length_filter_eq_length_iff.mpr ended
      omega
  · cases later with
    | nil => simpa using whole
    | cons n rest =>
      rw [← whole, List.append_cons] at all
      have some := all.left.some_left
      omega
  · exact isOver_iff_ended distinct ran unasked listed

end Run

namespace Sample

open Reconcile.Sample

def gone : Disk := ⟨.epoch, .done, Listing.ordered_done⟩

def session : Session := ⟨filled, .start .defaults, .plain, 1, false, false⟩

def paths : List Path := [watched, watched]

def twice : List (Handle × Path) := [(⟨1⟩, watched), (⟨2⟩, watched)]

def request (h : Handle) : DirWatch.Command := .register h watched true []

def both : List Event :=
  [.post (request ⟨1⟩), .post (request ⟨2⟩), .serve (request ⟨1⟩) filled fun _ _ => .plain,
    .serve (request ⟨2⟩) filled fun _ _ => .plain, .signal ⟨2⟩ .overflow, .signal ⟨1⟩ .overflow,
    .complete gone, .complete gone]

end Sample

theorem ends_with_last_watch_twice : Session.start .defaults Sample.session.disk = .ok Sample.session ∧
    (registerAll Sample.session true Sample.paths).2 = Sample.twice ∧
    ∃ m, (Monitor.start .defaults).run Sample.both = some m ∧
    isOver m.notices ⟨1⟩ = true ∧ isOver m.notices ⟨2⟩ = true ∧
    (Console.fed ⟨false, Sample.twice⟩ m.notices).live = 0 ∧
    (Console.fed ⟨false, Sample.twice⟩ m.notices).output = m.notices.flatMap (printed ⟨false, Sample.twice⟩) := by
  have ends : ((Monitor.start .defaults).run Sample.both).map
      (fun m => (isOver m.notices ⟨1⟩, isOver m.notices ⟨2⟩)) = some (true, true) := by decide +kernel
  obtain ⟨m, ran, both⟩ := Option.map_eq_some_iff.mp ends
  obtain ⟨first, second⟩ := Prod.mk.inj both
  have roots : (registerAll Sample.session true Sample.paths).2 = Sample.twice := registerAll_roots rfl
  -- what the command asks for is asked for under handles of its own
  have apart : (Sample.twice.map Prod.fst).Nodup := roots ▸ nodup_handles rfl (by decide)
  have told := @ends_with_last_watch Sample.twice m.notices false .defaults Sample.both m apart apart
    (fun h path recursive reactions posted => ?_) ran (List.prefix_refl m.notices) fun _ _ _ => rfl
  · refine ⟨rfl, roots, m, ran, first, second, ?_, told.2.2.2.2.2.1⟩
    have counted := told.1
    simp only [Sample.twice, List.filter_cons, first, second, if_true, List.filter_nil, List.length_cons] at counted
    simpa [Sample.twice] using counted
  · simp only [Sample.both, Sample.request, List.mem_cons, Event.post.injEq, List.not_mem_nil, reduceCtorEq, or_false,
      Command.register.injEq] at posted
    rcases posted with ⟨rfl, rfl, _⟩ | ⟨rfl, rfl, _⟩ <;> simp [Sample.twice]

end DirWatch.Command
