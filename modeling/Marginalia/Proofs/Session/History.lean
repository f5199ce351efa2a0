import Marginalia.Proofs.Session.Making
import Marginalia.Proofs.Session.Upkeep
import Marginalia.Session.Unencodable

/-!
# The history of a workspace

Each step of the sessions that share a workspace is an event for its ledger. After a run from an
empty workspace the records are what the events say (`Run.refines`): an id is located in the file
that was made for it, and the file is read as the ledger's entry. That rests on paths that have a
text and on room for the paths of sets and records, and a refresh on a walk that comes to its end
(`records_beyond_reach`).
-/

namespace Marginalia.Ledger

open Header (IsPath)

/-! ## Events -/

/-- What a step means to a ledger. -/
inductive Event where
  | quiet
  /-- Work on a marker at a moment, which may have made its record. -/
  | bound (now : Int) (r : Except Fault (Option Bound))
  | saved (path text : Text)
  /-- The counts of an id are now how often each of these paths occurs. -/
  | counted (id : Text) (paths : List Text)
  | wrote (id body : Text)

/-- The ledger after an event. A body loses the blank lines at its start. -/
def Event.on : Event → Ledger → Ledger
  | quiet, L => L
  | bound now r, L => L.bound now r
  | saved path text, L => L.noteAll path fun id => (Session.boundIds text).count id
  | counted id paths, L => L.update id fun e => { e with refs := Refs.tally paths }
  | wrote id body, L => L.update id fun e => { e with body := Page.settle body }

/-- The ledger after a number of events. -/
def after (es : List Event) : Ledger := es.foldl (fun L e => e.on L) empty

theorem after_concat (es : List Event) (e : Event) : after (es ++ [e]) = e.on (after es) := by
  unfold after
  rw [List.foldl_append]
  rfl

/-- Whether an event makes at most a record of an id that the ledger does not have. -/
def Event.New (L : Ledger) (e : Event) : Prop :=
  ∀ now b, e = .bound now (.ok (some b)) → b.created = true → L b.id = none

theorem Event.New.of_bound {L : Ledger} {now : Int} {r : Except Fault (Option Bound)}
    (h : ∀ b, r = .ok (some b) → b.created = true → L b.id = none) : (bound now r).New L := by
  intro now b e
  cases e
  exact h b rfl

/-- The ledger goes on with all its entries, each of them in its file and of its time. -/
def Continues (L L' : Ledger) : Prop :=
  ∀ id e, L id = some e → ∃ e', L' id = some e' ∧ e'.path = e.path ∧ e'.created = e.created

theorem continues_update {L : Ledger} (id : Text) {f : Record → Record}
    (hf : ∀ e, (f e).path = e.path ∧ (f e).created = e.created) : Continues L (L.update id f) := by
  intro k e he
  by_cases hk : k = id
  · exact ⟨f e, by rw [hk, update_self, ← hk, he, Option.map_some], hf e⟩
  · exact ⟨e, by rw [update_of_ne L f hk, he], rfl, rfl⟩

theorem Event.New.continues {L : Ledger} {e : Event} (h : e.New L) : Continues L (e.on L) := by
  cases e with
  | quiet => exact fun id e he => ⟨e, he, rfl, rfl⟩
  | saved path text =>
    intro id e he
    refine ⟨e.note path ((Session.boundIds text).count id), ?_, rfl, rfl⟩
    rw [Event.on, noteAll, he, Option.map_some]
  | counted id paths => exact continues_update id fun _ => ⟨rfl, rfl⟩
  | wrote id body => exact continues_update id fun _ => ⟨rfl, rfl⟩
  | bound now r =>
    intro id e he
    show ∃ e', L.bound now r id = some e' ∧ _
    unfold Ledger.bound
    split
    · next b =>
      split
      · next hb =>
        have hne : id ≠ b.id := fun hid => by
          rw [hid, h now b rfl hb] at he
          cases he
        exact ⟨e, by rw [put, if_neg hne, he], rfl, rfl⟩
      · exact ⟨e, he, rfl, rfl⟩
    · exact ⟨e, he, rfl, rfl⟩

/-! ## Steps -/

/-- A step in a workspace: one of the operations of a session, whatever it comes to, or a change by
others outside the folder of sets. Paths and bodies are read as they were written, and counts can
be written. -/
inductive Step (root : Path) (config : Config) : Tree → Event → Tree → Prop where
  | allocated {s : Session} {t t' r} (hs : s.Serves root config)
      (h : s.allocate.run t = (r, t')) : Step root config t .quiet t'
  | bound {s : Session} {now line d d' r} (hs : s.Serves root config)
      (h : (s.bindMarker now line).run d = (r, d')) :
      Step root config d.tree (.bound now r) d'.tree
  | handled {s : Session} {now c d d' r} (hs : s.Serves root config)
      (h : (s.handleChange now c).run d = (r, d')) :
      Step root config d.tree (.bound now r) d'.tree
  | opened {s : Session} {now line d d' r} (hs : s.Serves root config)
      (h : (s.openAtLine now line).run d = (r, d')) :
      Step root config d.tree (.bound now r) d'.tree
  | saved {s : Session} {path text t t' r} (hs : s.Serves root config) (hpath : IsPath path)
      (hcount : (Session.boundIds text).length < 10 ^ Numeral.limit)
      (h : (s.onSave path text).run t = (r, t')) : Step root config t (.saved path text) t'
  | refreshed {s : Session} {id t t' r} (hs : s.Serves root config) (hid : isId id = true)
      (hwalk : s.Walkable t root) (hpaths : ∀ p ∈ Matches.scanned s root t id, IsPath p)
      (hcount : (Matches.scanned s root t id).length < 10 ^ Numeral.limit)
      (h : (s.refresh id).run t = (r, t')) :
      Step root config t (.counted id (Matches.scanned s root t id)) t'
  | unwalked {s : Session} {id t t' r} (hs : s.Serves root config) (hwalk : ¬s.Walkable t root)
      (h : (s.refresh id).run t = (r, t')) : Step root config t .quiet t'
  | wrote {s : Session} {id p body t t' r} (hs : s.Serves root config) (hid : isId id = true)
      (hp : s.locate t id = .ok (some p)) (hbody : '\r' ∉ body)
      (h : (Session.writeBody p body).run t = (r, t')) : Step root config t (.wrote id body) t'
  | switched {s : Session} {name t t' r} (hs : s.Serves root config)
      (h : (s.switchSet name).run t = (r, t')) : Step root config t .quiet t'
  | summarized {s : Session} {now set format t t' r} (hs : s.Serves root config)
      (h : (s.summarize now set format).run t = (r, t')) : Step root config t .quiet t'
  | migrated {s : Session} {levels dryRun t t' r} (hs : s.Serves root config)
      (h : (s.migrate levels root dryRun).run t = (r, t')) : Step root config t .quiet t'
  | others {t t' : Tree} (hw : t'.WellFormed) (hroot : t'.resolve root = t.resolve root)
      (hsame : ∀ rest, t'.node? (lead [] root.home.parts ++ rest) =
        t.node? (lead [] root.home.parts ++ rest)) : Step root config t .quiet t'

/-- A step keeps the ledger and the tree together. -/
theorem Step.matches {root : Path} {config : Config} {t t' : Tree} {e : Event} {L : Ledger}
    (h : Step root config t e t') (hm : L.Matches config.defaultCategory root t)
    (hfits : Tree.Fits root.home 512) (hlabel : IsLabel config.defaultCategory)
    (hcursor : CursorShort root t') :
    (e.on L).Matches config.defaultCategory root t' ∧ e.New L := by
  cases h with
  | allocated hs h => exact ⟨(hm.allocate hfits hs.folder? h).1, nofun⟩
  | bound hs h =>
    obtain ⟨hm', hnew⟩ := hm.binds hfits hs hlabel rfl (Session.bindFrom_cases h) hcursor
    exact ⟨hm', .of_bound hnew⟩
  | handled hs h =>
    obtain ⟨hm', hnew⟩ := hm.binds hfits hs hlabel rfl (Session.handleChange_cases h) hcursor
    exact ⟨hm', .of_bound hnew⟩
  | opened hs h =>
    obtain ⟨hm', hnew⟩ := hm.openAtLine hfits hs hlabel rfl h hcursor
    exact ⟨hm', .of_bound hnew⟩
  | saved hs hpath hcount h =>
    obtain ⟨counts, t₁, hrun, hm'⟩ := hm.observe hfits hs.folder? hpath hcount
    unfold Session.onSave at h
    rw [hs.root] at h
    cases hrun.symm.trans h
    exact ⟨hm', nofun⟩
  | refreshed hs hid hwalk hpaths hcount h =>
    obtain ⟨counts, t₁, hrun, hm'⟩ := hm.refresh hfits hs.folder? hs.root hid hwalk hpaths hcount
    cases hrun.symm.trans h
    exact ⟨hm', nofun⟩
  | @unwalked s id _ _ _ hs hwalk h =>
    obtain rfl : t = t' := (hm.refresh_unwalked hs.root hwalk id).symm.trans (congrArg Prod.snd h)
    exact ⟨hm, nofun⟩
  | @wrote s id p body _ _ _ hs hid hp hbody h =>
    rw [hm.locate hfits hs.folder? hid] at hp
    cases he : L id with
    | none =>
      rw [he] at hp
      cases hp
    | some e =>
      rw [he] at hp
      cases hp
      obtain ⟨t₁, hrun, hm'⟩ := hm.writeBody hfits he hbody
      cases hrun.symm.trans h
      exact ⟨hm', nofun⟩
  | switched hs h => exact ⟨hm.switchSet hs.folder? h, nofun⟩
  | summarized hs h => exact ⟨hm.summarize hs.folder? hs.set h, nofun⟩
  | @migrated s levels dryRun _ _ _ hs h =>
    have hm' := hm.migrate hs levels dryRun
    rw [h] at hm'
    exact ⟨hm', nofun⟩
  | others hw hroot hsame =>
    exact ⟨hm.frame hw (hroot.trans hm.reach) fun rest => .inl (hsame rest), nofun⟩

/-! ## Runs -/

/-- A workspace that is reached, has no folder of sets, and in which the paths of sets and records
are not too long for the system. -/
structure Fresh (root : Path) (t : Tree) : Prop where
  wellFormed : t.WellFormed
  reach : ∃ l, t.resolve root = .ok l
  room : Tree.Fits root.home 512
  nothing : ∀ rest, t.node? (lead [] root.home.parts ++ rest) = none

theorem Fresh.matches {root : Path} {t : Tree} (h : Fresh root t) (label : Text) :
    empty.Matches label root t where
  wellFormed := h.wellFormed
  reach := by
    obtain ⟨l, hl⟩ := h.reach
    rw [hl, Tree.resolve_eq_lead hl]
  records := nofun
  only rest c hc := by
    rw [h.nothing] at hc
    cases hc

/-- Steps one after the other, while the cursor stays short enough for ids. -/
inductive Run (root : Path) (config : Config) : Tree → List Event → Tree → Prop where
  | done (t) : Run root config t [] t
  | step {t es t' e t''} (h : Run root config t es t') (h' : Step root config t' e t'')
      (hcursor : CursorShort root t'') : Run root config t (es ++ [e]) t''

/-- Every record that was made is in the ledger, in the file and of the time that it had then. -/
def HasMade (es : List Event) : Prop :=
  ∀ earlier now b later, es = earlier ++ .bound now (.ok (some b)) :: later → b.created = true →
    ∃ e, after es b.id = some e ∧ e.path = b.path ∧ e.created = Time.stamp now

theorem HasMade.concat {es : List Event} {e : Event} (h : HasMade es) (hnew : e.New (after es)) :
    HasMade (es ++ [e]) := by
  intro earlier now b later heq hb
  rw [after_concat]
  rcases List.eq_nil_or_concat later with rfl | ⟨later, last, rfl⟩
  · obtain ⟨-, heq⟩ := List.append_inj' heq rfl
    rw [List.singleton_inj.mp heq]
    exact ⟨{ path := b.path, created := Time.stamp now }, by simp [Event.on, Ledger.bound, hb, put],
      rfl, rfl⟩
  · rw [List.concat_eq_append, ← List.cons_append, ← List.append_assoc] at heq
    obtain ⟨heq, -⟩ := List.append_inj' heq rfl
    obtain ⟨made, hmade, hpath, hcreated⟩ := h earlier now b later heq hb
    obtain ⟨e', he', hpath', hcreated'⟩ := hnew.continues b.id made hmade
    exact ⟨e', he', hpath'.trans hpath, hcreated'.trans hcreated⟩

theorem Run.matches {root : Path} {config : Config} {t₀ t : Tree} {es : List Event}
    (h : Run root config t₀ es t) (hlabel : IsLabel config.defaultCategory)
    (hstart : Fresh root t₀) :
    (after es).Matches config.defaultCategory root t ∧ HasMade es := by
  induction h with
  | done => exact ⟨hstart.matches _, fun earlier now b later heq => by simp at heq⟩
  | step h h' hcursor ih =>
    obtain ⟨hm, hmade⟩ := ih
    obtain ⟨hm', hnew⟩ := h'.matches hm hstart.room hlabel hcursor
    rw [after_concat]
    exact ⟨hm', hmade.concat hnew⟩

/-- The records of a workspace are what the ledger of its events says. -/
theorem Run.refines {root : Path} {config : Config} {t₀ t : Tree} {es : List Event} {s : Session}
    (hlabel : IsLabel config.defaultCategory) (hstart : Fresh root t₀)
    (h : Run root config t₀ es t) (hs : s.Serves root config) :
    (∀ id, isId id = true → s.locate t id = .ok ((after es id).map Record.path)) ∧
      (∀ id e, after es id = some e → fileId? e.path.name = some id ∧
        ∃ f, s.read t e.path = .ok f ∧ f.id = id ∧ f.path = e.path ∧ f.created = some e.created ∧
          f.category = config.defaultCategory ∧ f.refs = e.refs ∧ f.body = e.body) ∧
      ∀ earlier now b later, es = earlier ++ .bound now (.ok (some b)) :: later →
        b.created = true →
        ∃ e, after es b.id = some e ∧ e.path = b.path ∧ e.created = Time.stamp now := by
  obtain ⟨hm, hmade⟩ := h.matches hlabel hstart
  exact ⟨fun id hid => hm.locate hstart.room hs.folder? hid,
    fun id e he => ⟨hm.fileId?_path he, hm.read hstart.room hlabel he⟩, hmade⟩

theorem Run.refines_from_empty :
    ∃ (root : Path) (config : Config) (s : Session) (es : List Event) (t : Tree) (e : Record),
      IsLabel config.defaultCategory ∧ Fresh root {} ∧ Run root config {} es t ∧
      s.Serves root config ∧ after es ['0'] = some e ∧ e.refs = ⟨[(['a'], 2)]⟩ ∧ e.body = ['b'] ∧
      s.locate t ['0'] = .ok (some e.path) ∧
      ∃ f, s.read t e.path = .ok f ∧ f.id = ['0'] ∧ f.path = e.path ∧ f.created = some e.created ∧
        f.category = config.defaultCategory ∧ f.refs = e.refs ∧ f.body = e.body := by
  let root : Path := { slashes := 1 }
  let s : Session := { root := some root }
  let text : Text := "//codemeta[0]\n//codemeta[0]".toList
  let d : Desk := { tree := {}, document := { lines := ["//codemeta[0]".toList] } }
  let made : Record := { path := root.record defaultSet ['0'], created := Time.stamp 0 }
  have hlabel : IsLabel ({} : Config).defaultCategory :=
    ⟨by decide, by decide, by decide, by rintro c (h | h) <;> cases h <;> decide⟩
  have hstart : Fresh root {} :=
    ⟨by decide, ⟨[], rfl⟩, ⟨by decide, by decide, by decide⟩, fun rest => rfl⟩
  have hs : s.Serves root {} := Session.serves_default root rfl
  obtain ⟨b, hb⟩ : ∃ b, (s.openAtLine 0 0).run d = b := ⟨_, rfl⟩
  obtain ⟨o, ho⟩ : ∃ o, (s.onSave ['a'] text).run b.2.tree = o := ⟨_, rfl⟩
  obtain ⟨w, hw⟩ : ∃ w, (Session.writeBody made.path ['\n', 'b']).run o.2 = w := ⟨_, rfl⟩
  have hbound : Step root {} {} (.bound 0 b.1) b.2.tree := .opened (d := d) hs hb
  have hcount : (Session.boundIds text).length < 10 ^ Numeral.limit :=
    Nat.lt_of_le_of_lt (show _ ≤ 2 by decide +kernel) (Nat.lt_of_lt_of_le (show 2 < 10 ^ 1 by decide)
      (Nat.pow_le_pow_right (by decide) (by decide)))
  have hsaved : Step root {} b.2.tree (.saved ['a'] text) o.2 :=
    .saved hs ⟨by decide, by decide, by decide⟩ hcount ho
  have hwrote : Step root {} o.2 (.wrote ['0'] ['\n', 'b']) w.2 :=
    .wrote (p := made.path) hs (by decide) (by rw [← ho, ← hb]; decide +kernel) (by decide) hw
  have hrun : Run root {} {} [.bound 0 b.1, .saved ['a'] text, .wrote ['0'] ['\n', 'b']] w.2 :=
    .step (.step (.step (.done {}) hbound ⟨0, by rw [← hb]; decide +kernel, by decide⟩) hsaved
      ⟨0, by rw [← ho, ← hb]; decide +kernel, by decide⟩) hwrote
      ⟨0, by rw [← hw, ← ho, ← hb]; decide +kernel, by decide⟩
  have hafter : after [.bound 0 b.1, .saved ['a'] text, .wrote ['0'] ['\n', 'b']] ['0'] =
      some { made with refs := ⟨[(['a'], 2)]⟩, body := ['b'] } := by
    rw [← hb]
    decide +kernel
  obtain ⟨hlocate, hread, -⟩ := Run.refines hlabel hstart hrun hs
  refine ⟨root, {}, s, _, w.2, _, hlabel, hstart, hrun, hs, hafter, rfl, rfl, ?_,
    (hread _ _ hafter).2⟩
  rw [hlocate _ (by decide), hafter]
  rfl

/-- What opening a marker in a workspace comes to. -/
def opened (root : Path) (t : Tree) : Except Fault (Option Bound) × Desk :=
  (Session.openAtLine { root := some root } 0 0).run
    { tree := t, document := { lines := ["//codemeta[0]".toList] } }

/-- The record that is made then. -/
def firstBound (root : Path) : Bound :=
  { id := ['0'], path := root.record defaultSet ['0'], created := true
    line := "//codemeta[0]".toList }

def firstText : Text :=
  "---\nid: 0\ncreated: 1970-01-01T00:00:00.000Z\ncategory: INFO\n---\n\n".toList

def longName : Name := List.replicate 200 'a'

/-- The workspace of that record and a set of a long name, which is searched first. -/
def longSet : Tree :=
  ⟨[([".cms".toList, longName], .folder),
    ([".cms".toList, "default".toList, "0.md".toList], .file (.text firstText)),
    ([".cms".toList, "default".toList], .folder), ([".cms".toList], .folder)]⟩

theorem locate_longSet {s : Session} (hs : s.folder? = some Tree.longRoot.home) :
    s.locate longSet ['0'] = .error (.disk .nameTooLong) := by
  have hchildren : longSet.children [".cms".toList] =
      [(longName, .folder), ("default".toList, .folder)] :=
    List.mergeSort_of_pairwise (by decide +kernel)
  have hres : longSet.resolve Tree.longRoot.home = .ok [".cms".toList] := by decide +kernel
  have hnode : longSet.node? [".cms".toList] = some .folder := by decide +kernel
  have hlisting : longSet.listing Tree.longRoot.home =
      .ok [(longName, .folder), ("default".toList, .folder)] := by
    rw [Tree.listing_of_resolve hres hnode, hchildren]
  have hfolder : longSet.isFolder Tree.longRoot.home = .ok true :=
    Tree.isFolder_eq_true_iff.mpr ⟨_, hres, hnode⟩
  have hselect : Tree.select longSet.isFolder Tree.longRoot.home [longName, "default".toList] =
      .ok [longName, "default".toList] := by decide +kernel
  have hflat : longSet.isFile (Tree.longRoot.home.fragment ['0']) = .ok false := by decide +kernel
  have hlong : longSet.isFile ((Tree.longRoot.home.child longName).fragment ['0']) =
      .error .nameTooLong := by decide +kernel
  simp only [Session.locate, Session.fragmentFolders, Session.setNames, hs, hfolder, Tree.foldersIn,
    hlisting, List.map, hselect, ask, bind, Except.bind, Except.mapError, pure, Except.pure, if_true,
    Session.firstWith, hflat, hlong, Bool.false_eq_true, if_false]

/-- The workspace of that record and a file whose path is too long to be asked for. -/
def longNamed : Tree :=
  ⟨[([".cms".toList], .folder), ([".cms".toList, "default".toList], .folder),
    ([".cms".toList, "default".toList, "0.md".toList], .file (.text firstText)),
    ([List.replicate 250 'a'], .file (.text []))]⟩

/-- A record is lost to a path that has no text, is not located behind a set whose files' paths are
too long, and is not refreshed beside a file whose path is. -/
theorem records_beyond_reach :
    (∃ t f, (opened { slashes := 1 } {}).1 = .ok (some (firstBound { slashes := 1 })) ∧
      (Session.onSavePassed { root := some { slashes := 1 } }
          (.inr 1279 :: Passed.ofText ".py".toList) "//codemeta[0]".toList).run
        (opened { slashes := 1 } {}).2.tree = (.error .unencodable, t) ∧
      Session.read { root := some { slashes := 1 } } t (firstBound { slashes := 1 }).path = .ok f ∧
      f.created = none) ∧
    ((opened Tree.longRoot {}).1 = .ok (some (firstBound Tree.longRoot)) ∧
      ((Session.switchSet { root := some Tree.longRoot } (some longName)).run
        (opened Tree.longRoot {}).2.tree).2 = longSet ∧
      ∀ s : Session, s.folder? = some Tree.longRoot.home →
        s.locate longSet ['0'] = .error (.disk .nameTooLong)) ∧
    (Session.refresh { root := some Tree.longRoot } ['0']).run longNamed =
      (.error (.disk .nameTooLong), longNamed) := by
  have hlocate : Session.locate { root := some Tree.longRoot } longNamed ['0'] =
      .ok (some (firstBound Tree.longRoot).path) := by decide +kernel
  have hfind : Session.findReferences { root := some Tree.longRoot } longNamed ['0'] =
      .error (.disk .nameTooLong) := by decide +kernel
  refine ⟨⟨_, { id := ['0'], path := (firstBound { slashes := 1 }).path, set := some defaultSet
                category := "INFO".toList, created := none, body := [], refs := {} },
      by decide +kernel, Work.run_eq_of_fst (by decide +kernel), by decide +kernel, rfl⟩,
    ⟨by decide +kernel, by decide +kernel, fun s => locate_longSet⟩, ?_⟩
  unfold Session.refresh
  rw [Work.run_bind_of_ok (by rw [Work.run_inspect, hlocate])]
  simp only
  rw [Work.run_bind_of_error (by rw [Work.run_inspect, hfind])]

end Marginalia.Ledger
