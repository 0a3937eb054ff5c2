import PhpPages.Proofs.Extension

namespace PhpPages

open Text

/-- A path that neither goes back nor holds a backslash. -/
def Forward (path : String) : Prop :=
  ".." ∉ pieces '/' path ∧ '\\' ∉ path.toList

instance (path : String) : Decidable (Forward path) :=
  inferInstanceAs (Decidable (_ ∧ _))

theorem Forward.segments {path : String} (h : Forward path) :
    ∀ s ∈ Path.textSegments path, s ≠ ".." ∧ '\\' ∉ s.toList := by
  intro s hs
  refine ⟨?_, fun hc => h.2 ((Path.mem_textSegments hs).2.2 _ hc)⟩
  intro hup
  subst hup
  exact h.1 (List.mem_filter.mp hs).1

namespace Boundary

/-- The text of a root ends in a slash only if it is the root of all. -/
theorem dropTrailing_root {root : Location} (hr : ∀ n ∈ root, IsPlain n) :
    dropTrailing ['/', '\\'] (Path.at root).text =
      if root = [] then "" else (Path.at root).text := by
  have hback : '\\' ∉ (Path.at root).text.toList :=
    Path.not_mem_text_at (by decide) fun n hn => (hr n hn).noBackslash
  have hsame :
      dropTrailing ['/', '\\'] (Path.at root).text = dropTrailing ['/'] (Path.at root).text := by
    apply dropTrailing_congr
    intro c hc
    have hne : c ≠ '\\' := fun e => hback (e ▸ hc)
    simp [hne]
  rw [hsame]
  by_cases hroot : root = []
  · rw [if_pos hroot, hroot]
    decide
  · rw [if_neg hroot, Path.dropTrailing_text_at (fun n hn => (hr n hn).toIsName) hroot]

/-- The path that is meant by a path in a project: the path itself if it is absolute, otherwise the
path seen from the root of the project. -/
def meant (root : Location) (path : String) : Path :=
  if Segments.isAbsolute path then Path.ofText path else (Path.at root).join (Path.ofText path)

theorem meant_relative {root : Location} {path : String} (h : Segments.isAbsolute path = false) :
    meant root path = ⟨.root, root ++ Path.textSegments path⟩ := by
  have hhead : path.toList.head? ≠ some '/' := by
    intro hslash
    obtain ⟨rest, hrest⟩ := List.head?_eq_some_iff.mp hslash
    simp [Segments.isAbsolute, hrest] at h
  have hpath : Path.ofText (Anchor.relative.text ++ path) = ⟨.relative, Path.textSegments path⟩ :=
    Path.ofText_anchor hhead
  rw [Anchor.text, String.empty_append] at hpath
  unfold meant
  rw [if_neg (by simp [h]), hpath]
  rfl

/-- Without backslashes, the text that is looked up for a path is read as the path that is meant. -/
theorem ofText_candidateFor {root : Location} {path : String} (hr : ∀ n ∈ root, IsPlain n)
    (hb : '\\' ∉ path.toList) : Path.ofText (candidateFor root path) = meant root path := by
  cases habs : Segments.isAbsolute path with
  | true => rw [candidateFor, if_pos habs, meant, if_pos habs]
  | false =>
    have hhead : ∀ c ∈ path.toList.head?, c ∉ ['/', '\\'] := by
      intro c hc hm
      obtain ⟨rest, hrest⟩ := List.head?_eq_some_iff.mp hc
      rcases List.mem_cons.mp hm with rfl | hm
      · simp [Segments.isAbsolute, hrest] at habs
      · exact hb (by simp [hrest, List.mem_singleton.mp hm])
    -- Exactly one slash stands at the front of the text.
    have htext : ∃ rest, candidateFor root path = Anchor.root.text ++ rest ∧
        rest.toList.head? ≠ some '/' ∧ Path.textSegments rest = root ++ Path.textSegments path := by
      rw [candidateFor, if_neg (by simp [habs]), dropTrailing_root hr, dropLeading_of_head hhead]
      by_cases hroot : root = []
      · rw [if_pos hroot, hroot, String.empty_append]
        exact ⟨path, rfl, fun h => hhead '/' h (by simp), rfl⟩
      · have hname : ∀ n ∈ root, IsName n := fun n hn => (hr n hn).toIsName
        have hne : ("/".intercalate root).toList ≠ [] := by
          intro hnil
          have hnames := Path.textSegments_intercalate hname
          rw [String.toList_inj.mp (hnil.trans String.toList_empty.symm)] at hnames
          exact hroot (hnames.symm.trans (by decide))
        refine ⟨"/".intercalate root ++ "/" ++ path, ?_, ?_, ?_⟩
        · rw [if_neg hroot, Path.text_at, String.append_assoc, String.append_assoc,
            String.append_assoc]
          rfl
        · rw [String.toList_append, String.toList_append, List.append_assoc, List.head?_append,
            List.head?_eq_some_head hne, Option.some_or, ← List.head?_eq_some_head hne]
          exact Path.head_intercalate (fun n hn => (hname n hn).notDropped) fun n hn =>
            (hname n hn).noSlash
        · rw [Path.textSegments_append_slash, Path.textSegments_intercalate hname]
    obtain ⟨rest, hcandidate, hrest, hsegments⟩ := htext
    rw [hcandidate, Path.ofText_anchor hrest, hsegments, meant_relative habs]

/-- What is looked up for a path that goes forward goes forward as well. -/
theorem candidateFor_forward {root : Location} {path : String} (hr : ∀ n ∈ root, IsPlain n)
    (h : Forward path) :
    ∀ s ∈ (Path.ofText (candidateFor root path)).segments, s ≠ ".." ∧ '\\' ∉ s.toList := by
  intro s hs
  rw [ofText_candidateFor hr h.2] at hs
  cases habs : Segments.isAbsolute path with
  | true =>
    rw [meant, if_pos habs] at hs
    exact h.segments s hs
  | false =>
    rw [meant_relative habs] at hs
    rcases List.mem_append.mp hs with hs | hs
    · exact ⟨(hr s hs).notUp, (hr s hs).noBackslash⟩
    · exact h.segments s hs

end Boundary

namespace FileSystem

/-- Names lead to the directory that they name. -/
theorem arrives_directory {fs : FileSystem} (hw : fs.WellFormed) {followLast : Bool} {n : Nat}
    {rest : List String} {l : Location} (h : fs.entry? (l ++ rest) = some .directory) :
    Arrives fs followLast n l rest (l ++ rest) := by
  induction rest generalizing l with
  | nil => simpa using Arrives.done n l
  | cons p rest ih =>
    have hsplit : l ++ p :: rest = l ++ [p] ++ rest := by simp
    have hname : IsName p := hw.named h p (by simp)
    rw [hsplit] at h ⊢
    refine .down hname.notDropped hname.notUp ?_ (ih h)
    by_cases hr : rest = []
    · simpa [hr] using h
    · exact hw.directory h hr

theorem lookup_directory {fs : FileSystem} (hw : fs.WellFormed) {x : Location} (followLast : Bool)
    (h : fs.entry? x = some .directory) :
    (fs.lookup followLast (Path.at x)).place? = some (x, some .directory) := by
  have ha : Arrives fs followLast linkLimit [] x x := arrives_directory hw h
  rw [ha.lookup (p := Path.at x) hw rfl, h]

/-- Names lead to the link that they name. -/
theorem walk_link {fs : FileSystem} (hw : fs.WellFormed) (enter : Location → List String → Found)
    {l : Location} {ps : List String} {n target : String}
    (h : fs.linkAt? (l ++ ps ++ [n]) = some target) :
    walk fs false enter l .directory (ps ++ [n]) = .entry (l ++ ps ++ [n]) (.link target) := by
  have hentry := linkAt?_eq_some.mp h
  induction ps generalizing l with
  | nil =>
    have hname : IsName n := hw.named hentry n (by simp)
    rw [List.append_nil] at hentry
    rw [List.nil_append, walk_named hname.notDropped hname.notUp, hentry]
    simp
  | cons p ps ih =>
    have hname : IsName p := hw.named hentry p (by simp)
    have hsplit : l ++ p :: ps ++ [n] = l ++ [p] ++ ps ++ [n] := by simp
    rw [hsplit] at h hentry ⊢
    have hdir : fs.entry? (l ++ [p]) = some .directory := by
      have hbehind :
          fs.entry? (l ++ [p] ++ (ps ++ [n])) = some (.link target) := by simpa using hentry
      exact hw.directory hbehind (by simp)
    rw [List.cons_append, walk_named hname.notDropped hname.notUp, hdir]
    exact ih h hentry

theorem lookup_link {fs : FileSystem} (hw : fs.WellFormed) {x : Location} {target : String}
    (h : fs.linkAt? x = some target) : fs.lookup false (Path.at x) = .entry x (.link target) := by
  have hne : x ≠ [] := by
    intro hx
    rw [hx, linkAt?_nil] at h
    cases h
  obtain ⟨ps, n, rfl⟩ := exists_snoc hne
  rw [lookup_eq]
  exact walk_link hw _ (l := []) h

/-- The front of a path to a directory leads to a directory. -/
theorem isDirectory_front {fs : FileSystem} (hw : fs.WellFormed) {a : Anchor}
    {ps rest : List String} (h : fs.isDirectory ⟨a, ps ++ rest⟩ = true) :
    fs.isDirectory ⟨a, ps⟩ = true := by
  by_cases hr : rest = []
  · simpa [hr] using h
  · obtain ⟨l, hl⟩ := isDirectory_iff.mp h
    obtain ⟨start, hs, ha, _⟩ := lookup_arrives hw hl (by simp)
    obtain ⟨k, _, hk, hdir, _⟩ := ha.split hw (startOf_directory hw hs) hr
    have hs' : fs.startOf ⟨a, ps⟩ = some start := hs
    refine isDirectory_iff.mpr ⟨k, ?_⟩
    rw [hk.lookup hw hs', hdir]

/-- No directory is made behind a link that does not lead to one. -/
theorem makeDirectoriesFrom_link {fs fs' : FileSystem} (hw : fs.WellFormed) {rs : List String}
    (hn : ∀ n ∈ rs, IsName n) (h : makeDirectoriesFrom .root fs rs = .ok fs') {k : Location}
    {target : String} (hk : k <+: rs.reverse) (hl : fs.linkAt? k = some target) :
    fs.isDirectory (Path.at k) = true := by
  induction rs generalizing fs' with
  | nil =>
    rw [List.prefix_nil.mp hk, linkAt?_nil] at hl
    cases hl
  | cons last above ih =>
    have habove : ∀ n ∈ above, IsName n := fun n h => hn n (by simp [h])
    rw [List.reverse_cons] at hk
    rcases List.prefix_concat_iff.mp hk with hk | hk
    · -- The link is what the last step finds, so it must lead to a directory already.
      have hoccupied : fs.makeDirectory ⟨.root, above.reverse ++ [last]⟩ = .error .occupied := by
        have hlookup := lookup_link hw hl
        rw [hk] at hlookup
        unfold makeDirectory
        rw [Path.at] at hlookup
        rw [hlookup]
      cases makeDirectoriesFrom_case h with
      | last makes => cases hoccupied.symm.trans makes
      | way missing => cases hoccupied.symm.trans missing
      | there directory =>
        rw [hk]
        exact directory
    · have hparent :
          fs.isDirectory ⟨.root, above.reverse⟩ = true → fs.isDirectory (Path.at k) = true := by
        intro hd
        obtain ⟨rest, hrest⟩ := hk
        rw [← hrest] at hd
        exact isDirectory_front hw hd
      cases makeDirectoriesFrom_case h with
      | last makes =>
        obtain ⟨m, hm, _⟩ := makeDirectory_ok hw (hn last (by simp)) makes
        exact hparent (isDirectory_iff.mpr ⟨m, hm⟩)
      | way _ way => exact ih habove way hk
      | there directory => exact hparent (isDirectory_front hw directory)

end FileSystem

namespace Boundary

/-- Nothing behind the part of a missing path that exists is a link, if a directory can
be made there. -/
theorem linkFree_behind {fs fs' : FileSystem} (hw : fs.WellFormed) {candidate shown : Path}
    {j : Nat} {x : Location} (hc : ∀ s ∈ candidate.segments, IsPlain s)
    (short : j < candidate.segments.length)
    (found : fs.resolveStrict ⟨candidate.anchor, candidate.segments.take j⟩ = .ok x)
    (next : fs.resolveStrict ⟨candidate.anchor, candidate.segments.take (j + 1)⟩ =
      .error (.missing shown))
    (hn : ∀ n ∈ x ++ candidate.segments.drop j, IsName n)
    (hmade : fs.makeDirectories (Path.at (x ++ candidate.segments.drop j)) = .ok fs') :
    fs.LinkFree (x ++ candidate.segments.drop j) := by
  have hfront : ∀ s ∈ candidate.segments.take (j + 1), '/' ∉ s.toList ∧ '\x00' ∉ s.toList := by
    intro s hs
    have hs := hc s (List.mem_of_mem_take hs)
    exact ⟨hs.noSlash, hs.noNull⟩
  have hx : fs.LinkFree x := by
    have hslash : ∀ s ∈ candidate.segments.take j, '/' ∉ s.toList :=
      fun s hs => (hc s (List.mem_of_mem_take hs)).noSlash
    exact (FileSystem.resolveStrict_denotes hw hslash found).2.linkFree hw
  intro k hk
  cases hlink : fs.linkAt? k with
  | none => rfl
  | some target =>
    have hdir : fs.isDirectory (Path.at k) = true := by
      apply FileSystem.makeDirectoriesFrom_link hw _ hmade _ hlink
      · exact fun n hm => hn n (List.mem_reverse.mp hm)
      · simpa [Path.at] using hk
    rcases List.prefix_or_prefix_of_prefix hk (List.prefix_append x _) with hk' | ⟨r, rfl⟩
    · rw [hx k hk'] at hlink
      cases hlink
    · -- A link behind that part leads to a directory, so the next segment would exist.
      have hdrop := List.drop_eq_getElem_cons short
      obtain ⟨r', rfl⟩ : ∃ r', r = candidate.segments[j] :: r' := by
        rw [List.prefix_append_right_inj, hdrop] at hk
        cases r with
        | nil =>
          rw [List.append_nil, hx x (List.prefix_refl x)] at hlink
          cases hlink
        | cons n r' =>
          obtain ⟨rfl, _⟩ := List.cons_prefix_cons.mp hk
          exact ⟨r', rfl⟩
      have hnext : fs.isDirectory ⟨.root, x ++ [candidate.segments[j]]⟩ = true := by
        apply FileSystem.isDirectory_front hw
        rw [List.append_assoc]
        exact hdir
      obtain ⟨y, hy⟩ := FileSystem.isDirectory_iff.mp hnext
      have hstrict :
          fs.resolveStrict ⟨candidate.anchor, candidate.segments.take (j + 1)⟩ = .ok y := by
        have hfound :
            fs.resolveStrict ⟨candidate.anchor, (candidate.segments.take (j + 1)).take j⟩ =
              .ok x := by
          rw [List.take_take, Nat.min_eq_left (by omega)]
          exact found
        have hlast : (candidate.segments.take (j + 1)).drop j = [candidate.segments[j]] := by
          rw [List.drop_take, hdrop, Nat.add_sub_cancel_left, List.take_succ_cons, List.take_zero]
        rw [← hlast] at hy
        exact FileSystem.resolveStrict_behind hw hfront hfound hy (by simp)
      rw [hstrict] at next
      cases next

/-- A missing path of plain names that was accepted is found in the place that was returned for it,
once a directory was made there. -/
theorem Accepted.made {fs fs' : FileSystem} (hw : fs.WellFormed) (hb : fs.NoBackslash)
    {root o : Location} {candidate : Path} (h : Accepted fs root candidate (Path.at o))
    (hc : ∀ s ∈ candidate.segments, IsPlain s) (hn : ∀ n ∈ o, IsName n)
    (hmade : fs.makeDirectories (Path.at o) = .ok fs') :
    fs'.resolveStrict candidate = .ok o ∧
    Segments.isWithin (Path.at o).text (Path.at root).text = true := by
  obtain ⟨hw', l, hl, hgrown⟩ := FileSystem.makeDirectories_ok hw hn hmade
  have hslash : ∀ s ∈ candidate.segments, '/' ∉ s.toList := fun s hs => (hc s hs).noSlash
  generalize hp : Path.at o = p at h
  cases h with
  | existing found inside =>
    cases congrArg Path.segments hp
    exact ⟨FileSystem.resolveStrict_extend hgrown.extends hslash found, inside⟩
  | @missing x _ j _ _ _ short found _ next _ _ readInside =>
    rw [reread_plain (plain_behind hw hb hc found)] at hp readInside ⊢
    obtain rfl : o = x ++ candidate.segments.drop j := congrArg Path.segments hp
    refine ⟨?_, readInside⟩
    have hfree := linkFree_behind hw hc short found next hn hmade
    have hfree' : fs'.LinkFree (x ++ candidate.segments.drop j) :=
      fun k hk => (hgrown.extends.links k).trans (hfree k hk)
    obtain ⟨hdenotes, _⟩ := FileSystem.lookup_denotes hw'
      (fun n hn' => ⟨(hn n hn').noSlash, (hn n hn').noNull⟩) hl (by simp)
    obtain rfl := hdenotes.unique (hfree'.denotes hn)
    have hfound := FileSystem.resolveStrict_extend hgrown.extends
      (fun s hs => hslash s (List.mem_of_mem_take hs)) found
    exact FileSystem.resolveStrict_behind hw' (fun s hs => ⟨hslash s hs, (hc s hs).noNull⟩) hfound
      hl (by simp)

end Boundary

namespace Site

/-- A configured path that is checked and goes forward is straight. -/
theorem straight_of_forward {fs : FileSystem} (hw : fs.WellFormed) (hb : fs.NoBackslash)
    {plan : Plan} {path : String} (hchecked : plan.unchecked = false) (h : Forward path) :
    Straight fs plan path := by
  refine ⟨hchecked, hb, fun root hroot => ?_⟩
  have hstands := (FileSystem.resolveStrict_denotes hw Path.ofText_noSlash hroot).2
  exact Boundary.candidateFor_forward (hstands.plain hw hb) h

/-- A straight path that leads to a directory comes out as the place of that directory. -/
theorem Straight.directory {fs : FileSystem} (hw : fs.WellFormed) {s : Settings}
    {path label : String} {p : Path} (hs : Straight fs (planOf s fs.here) path)
    (h : place fs (planOf s fs.here) path label = .ok p) {followLast : Bool} {y : Location}
    (hy : (fs.lookup followLast p).place? = some (y, some .directory)) :
    p = Path.at y ∧ fs.entry? y = some .directory := by
  obtain ⟨x, rfl, hx⟩ := (hs.followable hw h hy (by simp)).resolved hw h
  obtain ⟨x', hxx, hnames⟩ := place_names hw h
  obtain rfl : x = x' := congrArg Path.segments hxx
  obtain ⟨hdenotes, hdir⟩ := FileSystem.lookup_denotes hw
    (fun n hn => ⟨(hnames n hn).noSlash, (hnames n hn).noNull⟩) hy (by simp)
  obtain rfl := hdenotes.unique hx
  exact ⟨rfl, hdir⟩

/-- A straight path comes out as the same place before a directory is made there and afterwards. -/
theorem Straight.made {fs fs' : FileSystem} (hw : fs.WellFormed) {plan : Plan} {path label : String}
    {o : Location} (hs : Straight fs plan path) (h : place fs plan path label = .ok (Path.at o))
    (hn : ∀ n ∈ o, IsName n) (hmade : fs.makeDirectories (Path.at o) = .ok fs') :
    Followable fs' plan path ∧ place fs' plan path label = .ok (Path.at o) := by
  unfold place at h ⊢
  unfold Followable
  simp only [hs.checked, Bool.false_eq_true, ↓reduceIte, mapError_eq_ok] at h ⊢
  obtain ⟨root, hroot⟩ := Boundary.check_root h
  obtain ⟨hnull, hacc⟩ := Boundary.check_accepted hw hroot h
  obtain ⟨hfound, hin⟩ := hacc.made hw hs.noBackslash (hs.plain hroot hnull) hn hmade
  obtain ⟨_, _, _, hgrown⟩ := FileSystem.makeDirectories_ok hw hn hmade
  have hroot' := FileSystem.resolveStrict_extend hgrown.extends Path.ofText_noSlash hroot
  exact ⟨⟨root, o, hroot', hfound⟩, Boundary.check_found h hroot' hfound hin⟩

end Site

end PhpPages
