import DirWatch.Proofs.Disk.Descent
import DirWatch.Proofs.Scan.Content

namespace DirWatch

variable {d : Disk} {scope : Scope} {root : Path} {spot : Spot} {base names more above : List Name} {n : Name}
  {behind : Spot → Name → Path → List Entry} {place : Place} {budget links : Nat} {t : Instant}
  {inside whole : Listing} {node : Node} {e : Entry} {es : List Entry} {low : Option Name} {last : Bool}
  {f : Disk.Found}

namespace Disk

-- What is found at the path is not found through a link that is shown as itself.
def Direct (d : Disk) (scope : Scope) (root : Path) (names : List Name) : Prop :=
  ∀ above e, above ≠ [] → above <+: names → above ≠ names →
    d.stat root (.ofNames above) scope.followLinks = .ok e → e.isDirectory = true

-- No path that the scope shows leads to a directory that it leads through.
def Acyclic (d : Disk) (scope : Scope) (root : Path) : Prop :=
  ∀ above names f g, scope.shows names = true → above <+: names → above ≠ names →
    d.lookup (root.join (.ofNames above)) true = .ok f →
    d.lookup (root.join (.ofNames names)) true = .ok g → g.node.isDir = true → f.place ≠ g.place

-- The link at `names`, followed, leads back to the directory at `above`.
structure Returns (d : Disk) (root : Path) (above names : List Name) : Prop where
  link : ∃ place target t budget, d.lookup (root.join (.ofNames names)) false = .ok ⟨place, .link target t, budget⟩
  back : ∃ f g, d.lookup (root.join (.ofNames names)) true = .ok f ∧ f.node.isDir = true ∧
    d.lookup (root.join (.ofNames above)) true = .ok g ∧ g.place = f.place

-- Beyond `low`, no link on the way to `names` leads back to where a walk from `base` has come through.
def Onward (d : Disk) (root : Path) (base low names : List Name) : Prop :=
  ∀ q above, low <+: q → q ≠ low → q <+: names → base <+: above → above <+: q → above ≠ q →
    ¬d.Returns root above q

theorem stat_ok (looked : d.lookup (root.join (.ofNames names)) last = .ok f) :
    d.stat root (.ofNames names) last = .ok (.ofNode (.ofNames names) f.node) := by
  unfold stat
  rw [looked]
  rfl

theorem lookup_of_stat (shown : d.stat root (.ofNames names) last = .ok e) :
    ∃ f, d.lookup (root.join (.ofNames names)) last = .ok f ∧ e = .ofNode (.ofNames names) f.node := by
  unfold stat at shown
  cases looked : d.lookup (root.join (.ofNames names)) last with
  | error error =>
    rw [looked] at shown
    cases shown
  | ok f =>
    rw [looked] at shown
    exact ⟨f, rfl, (Except.ok.inj shown).symm⟩

theorem direct_of_followed (nonempty : root.bytes ≠ []) (follow : scope.followLinks = true)
    (shown : d.stat root (.ofNames names) scope.followLinks = .ok e) : d.Direct scope root names := by
  intro above k _ up proper found
  obtain ⟨f, looked, _⟩ := lookup_of_stat shown
  obtain ⟨place, t, inside, budget, dir⟩ := isDir_iff.mp (isDir_above nonempty up proper looked)
  rw [follow, stat_ok dir] at found
  cases found
  rfl

theorem Onward.later {low low' : List Name} (onward : d.Onward root base low names) (deeper : low <+: low') :
    d.Onward root base low' names := by
  intro q above up proper
  refine onward q above (deeper.trans up) fun same => ?_
  subst same
  exact proper (up.eq_of_length_le deeper.length_le).symm

theorem Onward.one (first : ∀ above, base <+: above → above <+: names → ¬d.Returns root above (names ++ [n])) :
    d.Onward root base names (names ++ [n]) := by
  intro q above up proper reached low upper beyond
  obtain rfl : q = names ++ [n] := by
    rcases List.prefix_concat_iff.mp reached with here | short
    · exact here
    · exact absurd (short.eq_of_length_le up.length_le) proper
  rcases List.prefix_concat_iff.mp upper with same | upper
  · exact absurd same beyond
  · exact first above low upper

theorem Onward.cons (first : ∀ above, base <+: above → above <+: names → ¬d.Returns root above (names ++ [n]))
    (onward : d.Onward root base (names ++ [n]) (names ++ [n] ++ more)) :
    d.Onward root base names (names ++ [n] ++ more) := by
  intro q above up proper reached
  by_cases here : q <+: names ++ [n]
  · exact Onward.one first q above up proper here
  · refine onward q above ?_ (fun same => here (same ▸ List.prefix_refl _)) reached
    exact (List.prefix_or_prefix_of_prefix reached (List.prefix_append _ _)).resolve_left here

theorem Acyclic.onward {low : List Name} (acyclic : d.Acyclic scope root) (shown : scope.shows names = true) :
    d.Onward root base low names := by
  intro q above up proper reached _ upper beyond returns
  obtain ⟨_, f, g, looked, isDir, found, same⟩ := returns
  have some : q ≠ [] := by
    rintro rfl
    exact proper (List.prefix_nil.mp up).symm
  exact acyclic above q g f (Scope.shows_above shown some reached) upper beyond found looked isDir same

end Disk

-- The spot of a walk in the directory at `names`, whose listing is `inside`.
structure Spot.Inside (d : Disk) (root : Path) (names : List Name) (inside : Listing) (spot : Spot) : Prop where
  nonempty : root.bytes ≠ []
  path : spot.path = root.join (.ofNames names)
  looked : ∃ t, d.lookup (root.join (.ofNames names)) true = .ok ⟨spot.place, .dir t inside, spot.budget⟩

section Inside

variable (within : spot.Inside d root names inside)
include within

theorem Spot.Inside.here : ∃ t, d.at? spot.place = some (.dir t inside) := by
  obtain ⟨t, looked⟩ := within.looked
  exact ⟨t, Disk.at?_of_lookup looked⟩

theorem Spot.Inside.lookup_child (listed : inside.find? n = some node) :
    d.lookup (root.join (.ofNames (names ++ [n]))) last = d.resolve last spot.budget spot.place [.down n] := by
  obtain ⟨t, looked⟩ := within.looked
  have storable := Disk.storable_child (Disk.at?_of_lookup looked) listed
  have plain : n.bytes.contains 0 = false := by
    unfold Name.isStorable at storable
    simpa using (Bool.and_eq_true_iff.mp storable).1
  rw [Disk.lookup_child within.nonempty looked, plain]
  rfl

theorem Spot.Inside.stat_listed (listed : inside.find? n = some node)
    (plain : last = false ∨ ∀ target u, node ≠ .link target u) :
    d.stat root (.ofNames (names ++ [n])) last = .ok (.ofNode (.ofNames (names ++ [n])) node) := by
  obtain ⟨t, here⟩ := within.here
  have found : d.lookup (root.join (.ofNames (names ++ [n]))) last = .ok ⟨spot.place ++ [n], node, spot.budget⟩ :=
    (within.lookup_child listed).trans (Disk.resolve_child here listed plain)
  exact Disk.stat_ok found

theorem Spot.Inside.enter {l : Listing} (listed : inside.find? n = some node)
    (led : d.resolve true spot.budget spot.place [.down n] = .ok ⟨place, .dir t l, budget⟩) :
    (spot.enter n place budget).Inside d root (names ++ [n]) l := by
  exact ⟨within.nonempty, Spot.pathOf_eq within.nonempty within.path, t, (within.lookup_child listed).trans led⟩

theorem Spot.Inside.enter_dir {l : Listing} (listed : inside.find? n = some (.dir t l)) :
    (spot.enter n (spot.place ++ [n]) spot.budget).Inside d root (names ++ [n]) l := by
  obtain ⟨_, here⟩ := within.here
  exact within.enter listed (Disk.resolve_child here listed (.inr (by simp)))

end Inside

-- The spot of a walk that started at `base`: it is inside of all directories on the way, and of no others.
structure Spot.Since (d : Disk) (root : Path) (base names : List Name) (inside : Listing) (spot : Spot) : Prop
    extends Spot.Inside d root names inside spot where
  below : base <+: names
  known : ∀ above f, base <+: above → above <+: names → d.lookup (root.join (.ofNames above)) true = .ok f →
    f.place ∈ spot.around
  only : ∀ place ∈ spot.around, ∃ above f, base <+: above ∧ above <+: names ∧
    d.lookup (root.join (.ofNames above)) true = .ok f ∧ f.place = place

section Since

variable (since : spot.Since d root base names inside)
include since

theorem Spot.Since.enter {l : Listing} (within : (spot.enter n place budget).Inside d root (names ++ [n]) l) :
    (spot.enter n place budget).Since d root base (names ++ [n]) l := by
  obtain ⟨t, looked⟩ := within.looked
  refine ⟨within, since.below.trans (List.prefix_append _ _), fun above f low up found => ?_, fun p member => ?_⟩
  · rcases List.prefix_concat_iff.mp up with rfl | up
    · rw [looked] at found
      cases found
      exact List.mem_cons_self
    · exact List.mem_cons_of_mem _ (since.known above f low up found)
  · rcases List.mem_cons.mp member with rfl | member
    · exact ⟨_, _, since.below.trans (List.prefix_append _ _), List.prefix_refl _, looked, rfl⟩
    · obtain ⟨above, f, low, up, found, same⟩ := since.only p member
      exact ⟨above, f, low, up.trans (List.prefix_append _ _), found, same⟩

theorem Spot.Since.not_returns (listed : inside.find? n = some node) (plain : ∀ target u, node ≠ .link target u) :
    ¬d.Returns root above (names ++ [n]) := by
  rintro ⟨⟨place, target, u, budget, looked⟩, _⟩
  obtain ⟨_, here⟩ := since.toInside.here
  rw [since.toInside.lookup_child listed, Disk.resolve_child here listed (.inl rfl)] at looked
  cases looked
  exact plain target u rfl

-- A directory that a link leads to is one that the walk is inside of exactly if the link leads back.
theorem Spot.Since.around_iff {target : Path} {u : Instant} (listed : inside.find? n = some (.link target u))
    (led : d.resolve true spot.budget spot.place [.down n] = .ok f) (isDir : f.node.isDir = true) :
    f.place ∈ spot.around ↔ ∃ above, base <+: above ∧ above <+: names ∧ d.Returns root above (names ++ [n]) := by
  obtain ⟨_, here⟩ := since.toInside.here
  have looked : d.lookup (root.join (.ofNames (names ++ [n]))) true = .ok f :=
    (since.toInside.lookup_child listed).trans led
  constructor
  · intro member
    obtain ⟨above, g, low, up, found, same⟩ := since.only f.place member
    have shown := (since.toInside.lookup_child listed).trans (Disk.resolve_child here listed (.inl rfl))
    exact ⟨above, low, up, ⟨⟨_, target, u, _, shown⟩, f, g, looked, isDir, found, same⟩⟩
  · intro given
    obtain ⟨above, low, up, ⟨_, g, k, there, _, found, same⟩⟩ := given
    rw [looked] at there
    cases there
    exact same ▸ since.known above k low up found

theorem Spot.Since.outside {target : Path} {u : Instant} (onward : d.Onward root base names (names ++ n :: more))
    (listed : inside.find? n = some (.link target u))
    (led : d.resolve true spot.budget spot.place [.down n] = .ok f) (isDir : f.node.isDir = true) :
    spot.around.contains f.place = false := by
  by_contra inside
  have inside : f.place ∈ spot.around := by simpa using inside
  obtain ⟨above, low, up, returns⟩ := (since.around_iff listed led isDir).mp inside
  refine onward (names ++ [n]) above (List.prefix_append _ _) (by simp) ?_ low
    (up.trans (List.prefix_append _ _)) ?_ returns
  · exact (List.prefix_append_right_inj names).mpr (by simp)
  · intro equal
    have short := up.length_le
    rw [equal, List.length_append, List.length_singleton] at short
    omega

end Since

-- What a walk meets is what a lookup of its path shows, if that holds of what stands behind links.
theorem Listing.walk_shows (links : ∀ spot names n inside node, Spot.Inside d root names inside spot →
      inside.find? n = some node → scope.followLinks = true →
      ∀ e ∈ behind spot n (.ofNames (names ++ [n])), d.stat root e.path scope.followLinks = .ok e)
    (within : spot.Inside d root names whole) {l : Listing} (ordered : l.orderedAfter low = true)
    (part : ∀ n node, l.find? n = some node → whole.find? n = some node) :
    ∀ e ∈ walk scope root behind spot l, d.stat root e.path scope.followLinks = .ok e := by
  induction l using induct_cons generalizing low spot names whole with
  | done =>
    intro e met
    cases met
  | cons n node rest deeper ih =>
    obtain ⟨_, _, sound, later⟩ := orderedAfter_cons.mp ordered
    have listed : whole.find? n = some node := part n node (by rw [find?_cons, if_pos rfl])
    intro e met
    rw [walk_cons, List.mem_append, bring_eq within.nonempty within.path] at met
    rcases met with met | met
    · split at met
      · cases met
      · cases node with
        | file size t =>
          cases List.mem_singleton.mp met
          exact within.stat_listed listed (.inr (by simp))
        | link target t =>
          simp only [meet] at met
          split at met
          · rename_i follow
            exact links spot names n whole _ within listed follow e met
          · rename_i plain
            cases List.mem_singleton.mp met
            exact within.stat_listed listed (.inl (by simpa using plain))
        | dir t inside =>
          rcases List.mem_cons.mp met with rfl | met
          · exact within.stat_listed listed (.inr (by simp))
          · split at met
            · exact deeper t inside rfl (within.enter_dir listed) sound (fun _ _ found => found) e met
            · cases met
    · refine ih within later (fun m other found => part m other ?_) e met
      rw [find?_cons]
      split
      · rename_i same
        rw [← same, find?_of_orderedAfter later] at found
        cases found
      · exact found

theorem Disk.walk_shows (within : spot.Inside d root names inside) :
    ∀ e ∈ d.walk scope root links spot inside, d.stat root e.path scope.followLinks = .ok e := by
  have sound {spot : Spot} {names : List Name} {inside : Listing} (within : spot.Inside d root names inside) :
      inside.Ordered := by
    obtain ⟨_, here⟩ := within.here
    exact d.ordered_at? here
  induction links generalizing spot names inside with
  | zero =>
    refine Listing.walk_shows (fun _ _ _ _ _ _ _ _ e met => ?_) within (sound within) fun _ _ found => found
    cases met
  | succ links ih =>
    refine Listing.walk_shows ?_ within (sound within) fun _ _ found => found
    intro spot names n inside node within listed follow e met
    unfold behindLink at met
    split at met
    · cases met
    · rename_i place t l budget led
      split at met
      · cases met
      · rcases List.mem_cons.mp met with rfl | met
        · exact follow ▸ stat_ok ((within.lookup_child listed).trans led)
        · split at met
          · exact ih (within.enter listed led) e met
          · cases met
    · rename_i place node budget _ led
      cases List.mem_singleton.mp met
      exact follow ▸ stat_ok ((within.lookup_child listed).trans led)

theorem Listing.mem_walk_of_listed {l : Listing} (listed : l.find? n = some node)
    (met : e ∈ bring scope root behind spot n node) : e ∈ walk scope root behind spot l := by
  induction l using induct_cons with
  | done => cases listed
  | cons m other rest _ ih =>
    rw [walk_cons]
    rw [find?_cons] at listed
    split at listed
    · rename_i same
      cases listed
      exact List.mem_append_left _ (same ▸ met)
    · exact List.mem_append_right _ (ih listed)

theorem Scope.excludes_of_shows (shown : scope.shows (names ++ n :: more) = true) :
    scope.excludes.excludes (.ofNames (names ++ [n])) = false := by
  obtain ⟨_, kept, _⟩ := Scope.shows_iff.mp shown
  rw [Reconcile.excluded_eq_false_iff] at kept
  exact kept _ (by simp) (List.prefix_append_right_inj names |>.mpr (by simp))

theorem Spot.Inside.listed (within : spot.Inside d root names inside)
    (found : d.lookup (root.join (.ofNames (names ++ [n]))) last = .ok f) : ∃ node, inside.find? n = some node := by
  obtain ⟨t, looked⟩ := within.looked
  rw [Disk.lookup_child within.nonempty looked] at found
  split at found
  · cases found
  · exact Disk.listed_of_resolve (Disk.at?_of_lookup looked) found

theorem Spot.Inside.shown_dir (within : spot.Inside d root names inside) (upper : names ++ [n] <+: more)
    (proper : names ++ [n] ≠ more) (direct : d.Direct scope root more)
    (looked : d.lookup (root.join (.ofNames more)) last = .ok f) : ∃ g,
      d.lookup (root.join (.ofNames (names ++ [n]))) scope.followLinks = .ok g ∧
      ∃ place t l budget, g = ⟨place, .dir t l, budget⟩ := by
  obtain ⟨place, t, l, budget, led⟩ := Disk.isDir_iff.mp (Disk.isDir_above within.nonempty upper proper looked)
  cases follow : scope.followLinks with
  | true => exact ⟨_, led, place, t, l, budget, rfl⟩
  | false =>
    obtain ⟨node, listed⟩ := within.listed led
    obtain ⟨_, here⟩ := within.here
    have found : d.lookup (root.join (.ofNames (names ++ [n]))) false =
        .ok ⟨spot.place ++ [n], node, spot.budget⟩ :=
      (within.lookup_child listed).trans (Disk.resolve_child here listed (.inl rfl))
    have shown := direct (names ++ [n]) _ (by simp) upper proper (follow ▸ Disk.stat_ok found)
    cases node with
    | dir t l => exact ⟨_, found, _, t, l, _, rfl⟩
    | file => cases shown
    | link => cases shown

theorem Disk.behindLink_dir {walk : Spot → Listing → List Entry} {path : Path}
    (led : d.resolve true spot.budget spot.place [.down n] = .ok ⟨place, .dir t inside, budget⟩)
    (outside : spot.around.contains place = false) : d.behindLink scope walk spot n path =
      .ofNode path (.dir t inside) :: if scope.recursive then walk (spot.enter n place budget) inside else [] := by
  unfold behindLink
  rw [led]
  simp only [outside, Bool.false_eq_true, if_false]

theorem Disk.behindLink_leaf {walk : Spot → Listing → List Entry} {path : Path}
    (led : d.resolve true spot.budget spot.place [.down n] = .ok f) (leaf : f.node.isDir = false) :
    d.behindLink scope walk spot n path = [.ofNode path f.node] := by
  obtain ⟨place, node, budget⟩ := f
  unfold behindLink
  rw [led]
  cases node with
  | dir => cases leaf
  | file => rfl
  | link => rfl

-- What a walk brings of a name that leads to `f`: the entry that a lookup shows, and, from a directory,
-- what a walk in there brings.
structure Disk.Brings (d : Disk) (scope : Scope) (root : Path) (names : List Name) (spot : Spot) (n : Name)
    (f : Disk.Found) (es : List Entry) : Prop where
  top : .ofNode (.ofNames (names ++ [n])) f.node ∈ es
  deeper : ∀ t l, f.node = .dir t l → scope.recursive = true → ∃ links, f.budget ≤ links ∧
    (spot.enter n f.place f.budget).Inside d root (names ++ [n]) l ∧
    ∀ e ∈ d.walk scope root links (spot.enter n f.place f.budget) l, e ∈ es

theorem Disk.brings_link {target : Path} (within : spot.Inside d root names inside)
    (enough : spot.budget ≤ links) (shown : scope.shows (names ++ [n]) = true)
    (listed : inside.find? n = some (.link target t)) (follow : scope.followLinks = true)
    (led : d.resolve true spot.budget spot.place [.down n] = .ok f)
    (outside : f.node.isDir = true → spot.around.contains f.place = false) :
    d.Brings scope root names spot n f (d.walk scope root links spot inside) := by
  obtain ⟨_, here⟩ := within.here
  have cost := resolve_link here listed led
  cases links with
  | zero => omega
  | succ links =>
    have part : d.behindLink scope (d.walk scope root links) spot n (.ofNames (names ++ [n])) =
        Listing.bring scope root (d.behindLink scope (d.walk scope root links)) spot n (.link target t) := by
      rw [Listing.bring_eq within.nonempty within.path, Scope.excludes_of_shows shown]
      simp [Listing.meet, follow]
    have met (e : Entry) (brought : e ∈ d.behindLink scope (d.walk scope root links) spot n
        (.ofNames (names ++ [n]))) : e ∈ d.walk scope root (links + 1) spot inside :=
      Listing.mem_walk_of_listed listed (part ▸ brought)
    obtain ⟨place, node, budget⟩ := f
    cases node with
    | dir u l =>
      rw [behindLink_dir led (outside rfl)] at met
      refine ⟨met _ List.mem_cons_self, fun t' l' same deep => ?_⟩
      cases same
      refine ⟨links, by omega, within.enter listed led, fun e inner => met e (List.mem_cons_of_mem _ ?_)⟩
      rwa [if_pos deep]
    | file =>
      rw [behindLink_leaf led rfl] at met
      exact ⟨met _ List.mem_cons_self, fun _ _ other => by cases other⟩
    | link =>
      rw [behindLink_leaf led rfl] at met
      exact ⟨met _ List.mem_cons_self, fun _ _ other => by cases other⟩

theorem Disk.brings (within : spot.Inside d root names inside) (enough : spot.budget ≤ links)
    (shown : scope.shows (names ++ [n]) = true)
    (looked : d.lookup (root.join (.ofNames (names ++ [n]))) scope.followLinks = .ok f)
    (outside : scope.followLinks = true → ∀ target u, inside.find? n = some (.link target u) →
      d.resolve true spot.budget spot.place [.down n] = .ok f → f.node.isDir = true →
      spot.around.contains f.place = false) : d.Brings scope root names spot n f (d.walk scope root links spot inside) := by
  obtain ⟨node, listed⟩ := within.listed looked
  obtain ⟨_, here⟩ := within.here
  obtain ⟨behind, shape⟩ : ∃ behind, d.walk scope root links = Listing.walk scope root behind := by
    cases links <;> exact ⟨_, rfl⟩
  have met (e : Entry) (brought : e ∈ Listing.meet scope root behind spot n (.ofNames (names ++ [n])) node) :
      e ∈ d.walk scope root links spot inside := by
    rw [shape]
    apply Listing.mem_walk_of_listed listed
    rw [Listing.bring_eq within.nonempty within.path, Scope.excludes_of_shows shown]
    exact brought
  rw [within.lookup_child listed] at looked
  cases node with
  | file size t =>
    rw [resolve_child here listed (.inr (by simp))] at looked
    cases looked
    exact ⟨met _ List.mem_cons_self, fun _ _ other => by cases other⟩
  | dir t l =>
    rw [resolve_child here listed (.inr (by simp))] at looked
    cases looked
    refine ⟨met _ List.mem_cons_self, fun t' l' same deep => ?_⟩
    cases same
    refine ⟨links, enough, within.enter_dir listed, fun e inner => met e (List.mem_cons_of_mem _ ?_)⟩
    rwa [if_pos deep, ← shape]
  | link target t =>
    cases follow : scope.followLinks with
    | false =>
      rw [follow, resolve_child here listed (.inl rfl)] at looked
      cases looked
      refine ⟨met _ ?_, fun _ _ other => by cases other⟩
      simp [Listing.meet, follow]
    | true =>
      rw [follow] at looked
      exact brings_link within enough shown listed follow looked (outside follow target t listed looked)

-- What a lookup shows below a directory is met by a walk in there, if the way there leads onward.
theorem Disk.mem_walk (since : spot.Since d root base names inside) (enough : spot.budget ≤ links)
    (some : more ≠ []) (shown : scope.shows (names ++ more) = true) (direct : d.Direct scope root (names ++ more))
    (onward : scope.followLinks = true → d.Onward root base names (names ++ more))
    (found : d.stat root (.ofNames (names ++ more)) scope.followLinks = .ok e) :
    e ∈ d.walk scope root links spot inside := by
  induction more generalizing spot names inside links with
  | nil => exact absurd rfl some
  | cons n rest ih =>
    have within := since.toInside
    obtain ⟨f, looked, entry⟩ := lookup_of_stat found
    by_cases last : rest = []
    · subst last
      rw [entry]
      refine (brings within enough shown looked fun follow target u listed led isDir => ?_).top
      exact since.outside (onward follow) listed led isDir
    · have upper : names ++ [n] <+: names ++ n :: rest := (List.prefix_append_right_inj names).mpr (by simp)
      have proper : names ++ [n] ≠ names ++ n :: rest := by simp [Ne.symm last]
      obtain ⟨g, inner, place, t, l, budget, rfl⟩ := within.shown_dir upper proper direct looked
      have above : scope.shows (names ++ [n]) = true := Scope.shows_above shown (by simp) upper
      have deep : scope.recursive = true := Scope.recursive_of_shows shown (by simp) upper proper
      have brings := brings within enough above inner fun follow target u listed led isDir =>
        since.outside (onward follow) listed led isDir
      obtain ⟨left, enough, deeper, all⟩ := brings.deeper t l rfl deep
      refine all e (ih (since.enter deeper) enough last ?_ ?_ (fun follow => ?_) ?_)
      · simpa using shown
      · simpa using direct
      · simpa using (onward follow).later (List.prefix_append names [n])
      · simpa using found

theorem Listing.walk_onward (links : ∀ spot names n inside target t, Spot.Since d root base names inside spot →
      inside.find? n = some (.link target t) → ∀ e ∈ behind spot n (.ofNames (names ++ [n])),
      ∃ more, e.path = .ofNames (names ++ n :: more) ∧ d.Onward root base names (names ++ n :: more))
    (follow : scope.followLinks = true) (since : spot.Since d root base names whole) {l : Listing}
    (ordered : l.orderedAfter low = true) (part : ∀ n node, l.find? n = some node → whole.find? n = some node) :
    ∀ e ∈ walk scope root behind spot l,
      ∃ more, e.path = .ofNames (names ++ more) ∧ d.Onward root base names (names ++ more) := by
  induction l using induct_cons generalizing low spot names whole with
  | done =>
    intro e met
    cases met
  | cons n node rest deeper ih =>
    obtain ⟨_, _, sound, later⟩ := orderedAfter_cons.mp ordered
    have listed : whole.find? n = some node := part n node (by rw [find?_cons, if_pos rfl])
    intro e met
    rw [walk_cons, List.mem_append, bring_eq since.nonempty since.path] at met
    rcases met with met | met
    · split at met
      · cases met
      · cases node with
        | file size t =>
          cases List.mem_singleton.mp met
          exact ⟨[n], rfl, .one fun above _ _ => since.not_returns listed (by simp)⟩
        | link target t =>
          simp only [meet, follow, if_true] at met
          obtain ⟨more, path, onward⟩ := links spot names n whole target t since listed e met
          exact ⟨n :: more, path, onward⟩
        | dir t inside =>
          have first : ∀ above, base <+: above → above <+: names → ¬d.Returns root above (names ++ [n]) :=
            fun above _ _ => since.not_returns listed (by simp)
          rcases List.mem_cons.mp met with rfl | met
          · exact ⟨[n], rfl, .one first⟩
          · split at met
            · have entered := since.enter (since.toInside.enter_dir listed)
              obtain ⟨more, path, onward⟩ := deeper t inside rfl entered sound (fun _ _ found => found) e met
              refine ⟨n :: more, by simp [path], ?_⟩
              simpa using onward.cons first
            · cases met
    · refine ih since later (fun m other found => part m other ?_) e met
      rw [find?_cons]
      split
      · rename_i same
        rw [← same, find?_of_orderedAfter later] at found
        cases found
      · exact found

theorem Disk.walk_onward (follow : scope.followLinks = true) (since : spot.Since d root base names inside) :
    ∀ e ∈ d.walk scope root links spot inside,
      ∃ more, e.path = .ofNames (names ++ more) ∧ d.Onward root base names (names ++ more) := by
  have sound {spot : Spot} {names : List Name} {inside : Listing} (since : spot.Since d root base names inside) :
      inside.Ordered := by
    obtain ⟨_, here⟩ := since.toInside.here
    exact d.ordered_at? here
  induction links generalizing spot names inside with
  | zero =>
    refine Listing.walk_onward (fun _ _ _ _ _ _ _ _ e met => ?_) follow since (sound since) fun _ _ found => found
    cases met
  | succ links ih =>
    refine Listing.walk_onward ?_ follow since (sound since) fun _ _ found => found
    intro spot names n inside target t since listed e met
    unfold behindLink at met
    split at met
    · cases met
    · rename_i place u l budget led
      split at met
      · cases met
      · rename_i outside
        -- the walk is not inside of what the link leads to, so the link does not lead back
        have first : ∀ above, base <+: above → above <+: names → ¬d.Returns root above (names ++ [n]) := by
          intro above low up returns
          have member := (since.around_iff listed led rfl).mpr ⟨above, low, up, returns⟩
          exact outside (by simpa using member)
        rcases List.mem_cons.mp met with rfl | met
        · exact ⟨[], rfl, .one first⟩
        · split at met
          · obtain ⟨more, path, onward⟩ := ih (since.enter (since.toInside.enter listed led)) e met
            refine ⟨more, by simp [path], ?_⟩
            simpa using onward.cons first
          · cases met
    · rename_i place node budget leaf led
      cases List.mem_singleton.mp met
      refine ⟨[], rfl, .one fun above _ _ returns => ?_⟩
      obtain ⟨_, f, _, looked, isDir, _⟩ := returns
      rw [since.toInside.lookup_child listed, led] at looked
      cases looked
      cases node with
      | dir u l => exact leaf u l rfl
      | file => cases isDir
      | link => cases isDir

section Entries

variable (nonempty : root.bytes ≠ [])
  (scanned : d.entriesBelow scope root (root.join (.ofNames names)) = .ok es)
include nonempty scanned

theorem Disk.entriesBelow_walk : ∃ spot inside, Spot.Since d root names names inside spot ∧
    spot.budget ≤ linkBudget ∧ es = d.walk scope root linkBudget spot inside := by
  unfold entriesBelow at scanned
  split at scanned
  · cases scanned
  · rename_i place t inside budget looked
    refine ⟨⟨root.join (.ofNames names), place, [place], budget⟩, inside,
      ⟨⟨nonempty, rfl, t, looked⟩, List.prefix_refl _, fun above f low up found => ?_, fun other member => ?_⟩, ?_,
      (Except.ok.inj scanned).symm⟩
    · obtain rfl := up.eq_of_length_le low.length_le
      rw [looked] at found
      cases found
      exact List.mem_cons_self
    · cases List.mem_singleton.mp member
      exact ⟨names, _, List.prefix_refl _, List.prefix_refl _, looked, rfl⟩
    · exact resolve_budget (lookup_ok looked).2.2
  · cases scanned

theorem Disk.entriesBelow_shows (met : e ∈ es) : d.stat root e.path scope.followLinks = .ok e := by
  obtain ⟨spot, inside, since, _, rfl⟩ := entriesBelow_walk nonempty scanned
  exact walk_shows since.toInside e met

theorem Disk.entriesBelow_onward (follow : scope.followLinks = true) (met : e ∈ es)
    (path : e.path = .ofNames (names ++ more)) : d.Onward root names names (names ++ more) := by
  obtain ⟨spot, inside, since, _, rfl⟩ := entriesBelow_walk nonempty scanned
  obtain ⟨others, same, onward⟩ := walk_onward follow since e met
  rwa [← Path.ofNames_injective (same.symm.trans path)]

theorem Disk.mem_entriesBelow_of_onward
    (onward : scope.followLinks = true → d.Onward root names names (names ++ more)) (some : more ≠ [])
    (shown : scope.shows (names ++ more) = true) (direct : d.Direct scope root (names ++ more))
    (found : d.stat root (.ofNames (names ++ more)) scope.followLinks = .ok e) : e ∈ es := by
  obtain ⟨spot, inside, since, enough, rfl⟩ := entriesBelow_walk nonempty scanned
  exact mem_walk since enough some shown direct onward found

theorem Disk.mem_entriesBelow (acyclic : scope.followLinks = true → d.Acyclic scope root) (some : more ≠ [])
    (shown : scope.shows (names ++ more) = true) (direct : d.Direct scope root (names ++ more))
    (found : d.stat root (.ofNames (names ++ more)) scope.followLinks = .ok e) : e ∈ es :=
  mem_entriesBelow_of_onward nonempty scanned (fun follow => (acyclic follow).onward shown) some shown direct found

end Entries

end DirWatch
