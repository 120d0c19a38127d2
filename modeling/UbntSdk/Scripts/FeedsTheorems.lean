/-
UbntSdk.Scripts.FeedsTheorems — a run of `feeds install` ends, and links a
source at most once.

`installPackage_cases` says what one call does to the marks: nothing, or it
marks the source of the package that it found, and then goes on with what that
source depends on. A call that goes on has marked one more source of the feeds,
so the number of those that are not marked bounds the depth of the recursion;
`installDeps_runs` is the rule for the loop in between. The same induction
carries `MarksOk` along, and `install_runs` reads both off a whole run.

Nothing is said here about what is *not* linked: the other packages of a source
are those of the last index only, and an entry that is read twice is cut twice.
-/
import UbntSdk.Lib.Dfs
import UbntSdk.Scripts.Feeds
import UbntSdk.Scripts.MetadataTheorems

namespace UbntSdk.Scripts

open UbntSdk.Lib

/-- A call is recorded. -/
def State.called (s : State) (c : Call) : State := { s with calls := s.calls ++ [(s.toMarks, c)] }

def State.mark (s : State) (source : Source) : State :=
  { s with installed := source.src :: s.installed, tried := s.tried ++ [source] }

def State.link (s : State) (source : Source) : State := { s with linked := s.linked ++ [source] }

namespace World

variable {w : World} {s : State} {feed : Option Feed} {name : Str}

/-! ## Packages that are found -/

theorem pkg_of_find {feed name : Str} {r : Ref} (h : w.find feed name = some r) :
    ∃ lines num, w.files feed = some lines ∧
      w.pkg r = (parsePackageMetadata lines).pkg num ∧
      (parsePackageMetadata lines).package.lookup name = some num := by
  simp only [find, getFeed, Option.bind_eq_bind, Option.bind_eq_some_iff, Option.map_eq_some_iff]
    at h
  obtain ⟨-, ⟨lines, hlines, rfl⟩, num, hnum, rfl⟩ := h
  refine ⟨lines, num, hlines, ?_, hnum⟩
  simp [pkg, getFeed, hlines]

theorem find_of_lookup {feed? : Option Feed} {name : Str} {feed : Feed} {r : Ref}
    (h : w.lookupPackage feed? name = some (feed, r)) :
    feed ∈ feed?.toList ++ w.feeds ∧ w.find feed.name name = some r := by
  unfold lookupPackage at h
  obtain ⟨f, hf, hfound⟩ := List.exists_of_findSome?_eq_some h
  obtain ⟨-, hfind⟩ := Option.ite_none_right_eq_some.mp hfound
  obtain ⟨r', hr', heq⟩ := Option.map_eq_some_iff.mp hfind
  cases heq
  exact ⟨hf, hr'⟩

/-- The other packages whose dependencies are followed have the same source. -/
theorem src_of_srcpackage {src : Str} {r : Ref} (h : r ∈ w.srcpackage src) :
    (w.pkg r).src = src := by
  unfold srcpackage at h
  split at h
  · cases h
  · rename_i last hlast
    split at h
    · cases h
    · rename_i index hindex
      obtain ⟨num, hnum, rfl⟩ := List.mem_map.mp h
      obtain ⟨lines, -, rfl⟩ := Option.map_eq_some_iff.mp hindex
      unfold pkg
      dsimp only
      rw [hindex]
      exact src_of_packagesOf hnum

/-- The feed that a call asks for is one of the list. -/
def Known (w : World) (feed : Option Feed) : Prop := ∀ f ∈ feed, f ∈ w.feeds

theorem known_preferred (p : Str) : w.Known (w.preferred p) := by
  intro f hf
  unfold preferred at hf
  split at hf
  · exact List.mem_of_find?_eq_some hf
  · cases hf

theorem known_of_lookup {feed? : Option Feed} {name : Str} {feed : Feed} {r : Ref}
    (hfeed : w.Known feed?) (h : w.lookupPackage feed? name = some (feed, r)) :
    w.Known (some feed) := by
  rintro f ⟨⟩
  rcases List.mem_append.mp (find_of_lookup h).1 with hmem | hmem
  · exact hfeed feed (Option.mem_toList.mp hmem)
  · exact hmem

/-- The sources of the feeds. -/
def sourceNames (w : World) : List Str :=
  w.feeds.flatMap fun feed => ((w.getFeed feed.name).map fun x => x.pkgs.map Pkg.src).getD []

/-- What is marked for a package is a source of the feeds. -/
theorem sourceOf_mem {feed? : Option Feed} {name : Str} {feed : Feed} {r : Ref}
    (hfeed : w.Known feed?) (h : w.lookupPackage feed? name = some (feed, r)) :
    (w.sourceOf r name).src ∈ w.sourceNames := by
  obtain ⟨lines, num, hlines, hpkg, hnum⟩ := pkg_of_find (find_of_lookup h).2
  obtain ⟨hlt, hplaced⟩ := placed_of_lookup hnum
  have hsrc : truthy (w.pkg r).src := hpkg ▸ hplaced.2.2
  have hsource : (w.sourceOf r name).src = (w.pkg r).src := if_pos hsrc
  refine List.mem_flatMap.mpr ⟨feed, known_of_lookup hfeed h feed rfl, ?_⟩
  rw [hsource, hpkg, getFeed, hlines]
  refine List.mem_map.mpr ⟨_, List.getElem_mem hlt, ?_⟩
  rw [Index.pkg, List.getD_eq_getElem?_getD, List.getElem?_eq_getElem hlt, Option.getD_some]

/-! ## What a run marks -/

/-- What holds of the marks at any time: each source that was marked is one of
the feeds, was marked once and was not installed before. -/
structure MarksOk (w : World) (m : Marks) : Prop where
  before : w.getInstalled ⊆ m.installed
  tried : ∀ s ∈ m.tried, s.src ∈ m.installed ∧ s.src ∈ w.sourceNames ∧ s.src ∉ w.getInstalled
  distinct : (m.tried.map Source.src).Nodup
  linked : m.linked.Sublist m.tried

theorem MarksOk.start : w.MarksOk w.start.toMarks :=
  ⟨List.Subset.refl _, List.forall_mem_nil _, List.nodup_nil, List.Sublist.refl _⟩

theorem MarksOk.mark (h : w.MarksOk s.toMarks) {source : Source}
    (hmem : source.src ∈ w.sourceNames) (hnot : source.src ∉ s.installed) :
    w.MarksOk (s.mark source).toMarks where
  before := List.Subset.trans h.before (List.subset_cons_self ..)
  tried := by
    intro t ht
    rcases List.mem_append.mp ht with ht | ht
    · exact ⟨List.mem_cons_of_mem _ (h.tried t ht).1, (h.tried t ht).2⟩
    · obtain rfl := List.mem_singleton.mp ht
      exact ⟨List.mem_cons_self, hmem, fun hbefore => hnot (h.before hbefore)⟩
  distinct := by
    rw [State.mark, List.map_append, List.nodup_append']
    refine ⟨h.distinct, List.nodup_singleton _, ?_⟩
    intro src hsrc hlast
    obtain ⟨t, ht, rfl⟩ := List.mem_map.mp hsrc
    obtain heq : t.src = source.src := List.mem_singleton.mp hlast
    exact hnot (heq ▸ (h.tried t ht).1)
  linked := h.linked.trans (List.sublist_append_left ..)

/-- What is linked was marked just before. -/
theorem MarksOk.link (h : w.MarksOk s.toMarks) {source : Source}
    (hmem : source.src ∈ w.sourceNames) (hnot : source.src ∉ s.installed) :
    w.MarksOk ((s.mark source).link source).toMarks :=
  have hmark := h.mark hmem hnot
  ⟨hmark.before, hmark.tried, hmark.distinct, h.linked.append (List.Sublist.refl _)⟩

/-! ## One call and the loop in it -/

/-- A call leaves the marks alone, or marks a source: it ends there, or links
the source and goes on. -/
theorem installPackage_cases (fuel : Nat) (s : State) (feed : Option Feed) (name : Str) :
    (∃ ok, w.installPackage (fuel + 1) s feed name = some (ok, s.called ⟨feed, name⟩)) ∨
    ∃ feed' r, w.lookupPackage feed name = some (feed', r) ∧
      (w.sourceOf r name).src ∉ s.installed ∧
      (w.installPackage (fuel + 1) s feed name =
          some (false, (s.called ⟨feed, name⟩).mark (w.sourceOf r name)) ∨
        w.installPackage (fuel + 1) s feed name =
          installDeps (fun s dep => w.installPackage fuel s (some feed') dep)
            ((w.srcpackage (w.sourceOf r name).src ++ [r]).flatMap w.depsAt) true
            (((s.called ⟨feed, name⟩).mark (w.sourceOf r name)).link (w.sourceOf r name))) := by
  rw [installPackage]
  dsimp only
  cases hlookup : w.lookupPackage feed name with
  | none => exact .inl ⟨true, rfl⟩
  | some found =>
      obtain ⟨feed', r⟩ := found
      dsimp only
      by_cases hname : truthy (w.pkg r).name
      · rw [if_neg (not_not_intro hname)]
        by_cases hsrc : (w.sourceOf r name).src ∈ s.installed
        · exact .inl ⟨true, if_pos hsrc⟩
        by_cases hmem : name ∈ s.installed
        · exact .inl ⟨true, by rw [if_neg hsrc, if_pos hmem]; rfl⟩
        rw [if_neg hsrc, if_neg hmem]
        refine .inr ⟨feed', r, rfl, hsrc, ?_⟩
        split
        · exact .inl rfl
        · split
          · exact .inl rfl
          · exact .inr rfl
      · exact .inl ⟨true, if_pos hname⟩

/-- The loop ends where each call ends, and keeps what the calls keep. -/
theorem installDeps_runs {install : State → Str → Option (Bool × State)} {I : State → Prop}
    (hinstall : ∀ s dep, I s → ∃ r, install s dep = some r ∧ I r.2)
    (hedit : ∀ (s : State) at_ dep, I s → I { s with deps := s.deps.edit at_ dep })
    (places : List (Ref × Nat)) (ret : Bool) (hs : I s) :
    ∃ r, installDeps install places ret s = some r ∧ I r.2 := by
  induction places generalizing s ret with
  | nil => exact ⟨(ret, s), rfl, hs⟩
  | cons at_ rest ih =>
      rw [installDeps]
      split
      · exact ih ret hs
      · dsimp only
        have hedited := hedit s at_ (stripDep (s.deps.text at_)) hs
        split
        · obtain ⟨⟨ok, u⟩, heq, hu⟩ := hinstall _ _ hedited
          rw [heq]
          exact ih (ret && ok) hu
        · exact ih ret hedited

/-! ## The run -/

/-- A depth that exceeds the number of sources that are not marked is enough. -/
theorem installPackage_runs {fuel : Nat} (hfeed : w.Known feed) (hs : w.MarksOk s.toMarks)
    (hfuel : (unseen w.sourceNames.toFinset s.installed).card < fuel) :
    ∃ r, w.installPackage fuel s feed name = some r ∧ s.installed ⊆ r.2.installed ∧
      w.MarksOk r.2.toMarks := by
  induction fuel generalizing s feed name with
  | zero => exact absurd hfuel (Nat.not_lt_zero _)
  | succ fuel ih =>
      rcases w.installPackage_cases fuel s feed name with
        ⟨ok, heq⟩ | ⟨feed', r, hlookup, hnot, heq | heq⟩
      · exact ⟨_, heq, List.Subset.refl _, hs⟩
      · exact ⟨_, heq, List.subset_cons_self .., MarksOk.mark hs (sourceOf_mem hfeed hlookup) hnot⟩
      · have hmem := sourceOf_mem hfeed hlookup
        -- the calls of the loop find one more source marked
        have hinstall (u : State) (dep : Str)
            (hu : (w.sourceOf r name).src :: s.installed ⊆ u.installed ∧ w.MarksOk u.toMarks) :
            ∃ v, w.installPackage fuel u (some feed') dep = some v ∧
              (w.sourceOf r name).src :: s.installed ⊆ v.2.installed ∧ w.MarksOk v.2.toMarks := by
          have hless := card_unseen_lt (List.mem_toFinset.mpr hmem) hnot hu.1
          obtain ⟨v, hv, hkeeps, hok⟩ := ih (known_of_lookup hfeed hlookup) hu.2 (by omega)
          exact ⟨v, hv, List.Subset.trans hu.1 hkeeps, hok⟩
        obtain ⟨v, hv, hkeeps, hok⟩ := installDeps_runs hinstall (fun _ _ _ h => h)
          ((w.srcpackage (w.sourceOf r name).src ++ [r]).flatMap w.depsAt) true
          (s := ((s.called ⟨feed, name⟩).mark (w.sourceOf r name)).link (w.sourceOf r name))
          ⟨List.Subset.refl _, MarksOk.link hs hmem hnot⟩
        exact ⟨v, heq.trans hv, (List.cons_subset.mp hkeeps).2, hok⟩

theorem installNames_runs {fuel : Nat} (hfeed : w.Known feed)
    (hfuel : w.sourceNames.length < fuel) (names : List Str) (ret : Bool)
    (hs : w.MarksOk s.toMarks) :
    ∃ r, w.installNames fuel feed names ret s = some r ∧ w.MarksOk r.2.toMarks := by
  induction names generalizing s ret with
  | nil => exact ⟨(ret, s), rfl, hs⟩
  | cons name names ih =>
      rw [installNames]
      split
      · have hcard : (unseen w.sourceNames.toFinset s.installed).card ≤ w.sourceNames.length :=
          (Finset.card_le_card Finset.sdiff_subset).trans (List.toFinset_card_le _)
        obtain ⟨⟨ok, u⟩, heq, -, hu⟩ : ∃ r, w.installPackage fuel s feed name = some r ∧ _ ∧ _ :=
          installPackage_runs hfeed hs (Nat.lt_of_le_of_lt hcard hfuel)
        rw [heq]
        exact ih (ret && ok) hu
      · exact ⟨(ret, s), rfl, hs⟩

/-- `feeds install` ends, whatever the indexes and the names are, at a depth that
the indexes give. What it has linked then are different sources of the feeds,
and none of them was installed before. -/
theorem install_runs (fuel : Nat) (hfuel : w.sourceNames.length < fuel) (p : Str)
    (names : List Str) : ∃ ok t, w.install fuel p names = some (ok, t) ∧
      (t.linked.map Source.src).Nodup ∧
      ∀ s ∈ t.linked, s.src ∈ w.sourceNames ∧ s.src ∉ w.getInstalled := by
  obtain ⟨⟨ok, t⟩, hrun, hok⟩ := installNames_runs (known_preferred p) hfuel names true MarksOk.start
  refine ⟨ok, t, hrun, (hok.linked.map Source.src).nodup hok.distinct, fun s hs => ?_⟩
  exact (hok.tried s (hok.linked.subset hs)).2

end World

end UbntSdk.Scripts
