import DirWatch.Proofs.Reconcile.Sight

namespace DirWatch.Reconcile

open Snapshot

abbrev View := List Name → Option Entry

-- A snapshot is right at a path if no report would tell it from the view there.
def Right (s : Snapshot) (view : View) (q : List Name) : Prop := Entry.Matches (s.at? q) (view q)

def Settled (s : Snapshot) (view : View) (p : List Name) : Prop := ∀ q, p <+: q → Right s view q

def Renewed (s t : Snapshot) (q : List Name) : Prop :=
  ∃ known fresh, s.at? q = some known ∧ t.at? q = some fresh ∧ known.isDirectory = fresh.isDirectory

def Toward (view : View) (s t : Snapshot) : Prop :=
  ∀ q, t.at? q = s.at? q ∨ (t.at? q = view q ∧ (Settled t view q ∨ Renewed s t q))

variable {d : Disk} {scope : Scope} {r s t : Snapshot} {view : View} {root : Path} {a p q names : List Name}
  {e fresh known : Entry} {step : Step}

theorem right_of_eq (same : s.at? q = view q) : Right s view q := .of_eq same

theorem Right.congr (right : Right s view q) (same : t.at? q = s.at? q) : Right t view q := by
  unfold Right
  rw [same]
  exact right

theorem Right.unknown (right : Right s view q) (gone : view q = none) : s.at? q = none := by
  unfold Right at right
  rw [gone] at right
  exact right.none_right

theorem Right.unseen (right : Right s view q) (absent : s.at? q = none) : view q = none := by
  unfold Right at right
  rw [absent] at right
  exact right.none_left

theorem Toward.refl (view : View) (s : Snapshot) : Toward view s s := fun _ => .inl rfl

theorem Toward.right (toward : Toward view s t) (before : Right s view q) : Right t view q := by
  rcases toward q with same | ⟨new, _⟩
  · exact before.congr same
  · exact right_of_eq new

theorem Toward.settled (toward : Toward view s t) (before : Settled s view p) : Settled t view p :=
  fun q below => toward.right (before q below)

theorem Toward.trans (one : Toward view r s) (two : Toward view s t) : Toward view r t := by
  intro q
  rcases two q with same | ⟨new, settled | ⟨known, fresh, was, stands, kinds⟩⟩
  · rcases one q with old | ⟨new, settled | ⟨known, fresh, was, stands, kinds⟩⟩
    · exact .inl (same.trans old)
    · exact .inr ⟨same.trans new, .inl (two.settled settled)⟩
    · exact .inr ⟨same.trans new, .inr ⟨known, fresh, was, same.trans stands, kinds⟩⟩
  · exact .inr ⟨new, .inl settled⟩
  · refine .inr ⟨new, ?_⟩
    rcases one q with old | ⟨_, settled | ⟨first, second, before, between, alike⟩⟩
    · exact .inr ⟨known, fresh, old.symm.trans was, stands, kinds⟩
    · exact .inl (two.settled settled)
    · have same : second = known := Option.some.inj (between.symm.trans was)
      exact .inr ⟨first, fresh, before, stands, alike.trans (same ▸ kinds)⟩

-- What is tracked is shown, and nothing stands below a path that is a file in the snapshot and in the view.
structure Fair (scope : Scope) (view : View) (s : Snapshot) : Prop where
  shown : ∀ q, (s.at? q).isSome = true → scope.shows q = true
  layered : ∀ p q known fresh, p <+: q → p ≠ q → s.at? p = some known → known.isDirectory = false →
    view p = some fresh → fresh.isDirectory = false → s.at? q = none

theorem Toward.fair (toward : Toward view s t) (fair : Fair scope view s)
    (shows : ∀ q, (view q).isSome = true → scope.shows q = true)
    (files : ∀ p q fresh, p <+: q → p ≠ q → view p = some fresh → fresh.isDirectory = false → view q = none) :
    Fair scope view t := by
  constructor
  · intro q present
    rcases toward q with same | ⟨new, _⟩
    · exact fair.shown q (same ▸ present)
    · exact shows q (new ▸ present)
  · intro p q known fresh up proper stands kind seen file
    have bare := files p q fresh up proper seen file
    rcases toward q with same | ⟨new, _⟩
    · rw [same]
      rcases toward p with kept | ⟨_, settled | ⟨old, new, was, now, alike⟩⟩
      · exact fair.layered p q known fresh up proper (kept.symm.trans stands) kind seen file
      · have right := settled q up
        unfold Right at right
        rw [bare, same] at right
        exact right.none_right
      · rw [stands] at now
        cases now
        exact fair.layered p q old fresh up proper was (alike.trans kind) seen file
    · exact new.trans bare

-- A hint at `p` covers `q` if following it sets right whatever is wrong at `q`: something is to appear
-- there or to go, or is known and stands there, if only as another kind of thing above `q`.
inductive Covers (view : View) (s : Snapshot) : Action → List Name → List Name → Prop
  | arrives {action : Action} {p q : List Name} : action = .added ∨ action = .renamedTo → p <+: q →
      s.at? p = none → Covers view s action p q
  | leaves {action : Action} {p q : List Name} : action = .removed ∨ action = .renamedFrom → p <+: q →
      (s.at? p).isSome = true → Covers view s action p q
  | stays {action : Action} {q : List Name} : (s.at? q).isSome = true → (view q).isSome = true →
      Covers view s action q q
  | turns {action : Action} {p q : List Name} {known fresh : Entry} : p <+: q → s.at? p = some known →
      view p = some fresh → known.isDirectory ≠ fresh.isDirectory → Covers view s action p q

theorem Covers.persists {action : Action} (covers : Covers view s action p q) (toward : Toward view s t) :
    Right t view q ∨ Covers view t action p q := by
  cases covers with
  | arrives arrival below absent =>
    rcases toward p with same | ⟨_, settled | ⟨known, _, was, _⟩⟩
    · exact .inr (.arrives arrival below (same.trans absent))
    · exact .inl (settled q below)
    · rw [absent] at was
      cases was
  | leaves leaving below present =>
    rcases toward p with same | ⟨_, settled | ⟨_, fresh, _, stands, _⟩⟩
    · exact .inr (.leaves leaving below (same ▸ present))
    · exact .inl (settled q below)
    · exact .inr (.leaves leaving below (by rw [stands]; rfl))
  | stays present seen =>
    rcases toward p with same | ⟨new, _⟩
    · exact .inr (.stays (same ▸ present) seen)
    · exact .inl (right_of_eq new)
  | turns below stood seen kinds =>
    rcases toward p with same | ⟨new, settled | ⟨known, fresh, was, stands, alike⟩⟩
    · exact .inr (.turns below (same.trans stood) seen kinds)
    · exact .inl (settled q below)
    · rw [stood] at was
      rw [new, seen] at stands
      cases was
      cases stands
      exact absurd alike kinds

end DirWatch.Reconcile
