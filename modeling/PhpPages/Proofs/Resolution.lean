import PhpPages.Proofs.Leads

namespace PhpPages.FileSystem

open Text

/-- The location that a path really denotes: every link in it is followed, and what is missing is
kept. A path that runs into a loop denotes none. -/
def Denotes (fs : FileSystem) (p : Path) (l : Location) : Prop :=
  ∃ start us, fs.startOf p = some start ∧ Leads fs false start.location p.segments l us

theorem Denotes.unique {fs : FileSystem} {p : Path} {l l' : Location} (h : fs.Denotes p l)
    (h' : fs.Denotes p l') : l = l' := by
  obtain ⟨start, us, hs, hl⟩ := h
  obtain ⟨start', us', hs', hl'⟩ := h'
  have he := Option.some.inj (hs.symm.trans hs')
  subst he
  exact (hl.unique hl').1

theorem denotes_at {fs : FileSystem} {names l : Location} :
    fs.Denotes (Path.at names) l ↔ ∃ us, Leads fs false [] names l us := by
  constructor
  · rintro ⟨start, us, hs, hl⟩
    have he : Reached.root = start := Option.some.inj hs
    subst he
    exact ⟨us, hl⟩
  · rintro ⟨us, hl⟩
    exact ⟨Reached.root, us, rfl, hl⟩

/-- A location without links is denoted by the path to it. -/
theorem LinkFree.denotes {fs : FileSystem} {l : Location} (h : fs.LinkFree l)
    (hn : ∀ n ∈ l, IsName n) : fs.Denotes (Path.at l) l :=
  denotes_at.mpr ⟨[], LinkFree.leads (l := []) h hn (by simp)⟩

theorem status_link {fs : FileSystem} {l : Location} {target : String}
    (h : fs.linkAt? l = some target) : fs.status l = .ok (.link target) := by
  simp [status, linkAt?_eq_some.mp h]

theorem status_ok {fs : FileSystem} {l : Location} {e : Entry} (h : fs.status l = .ok e) :
    fs.entry? l = some e := by
  unfold status at h
  split at h
  · rename_i e' he
    rw [he, Except.ok.inj h]
  · simp at h

/-- Without a link the status says that something else stands there, or that nothing does. -/
theorem status_plain {fs : FileSystem} {l : Location} (h : fs.linkAt? l = none) :
    (∃ e, fs.status l = .ok e ∧ ∀ t, e ≠ .link t) ∨ ∃ f, fs.status l = .error f := by
  cases hs : fs.status l with
  | error f => exact .inr ⟨f, rfl⟩
  | ok e =>
    refine .inl ⟨e, rfl, ?_⟩
    rintro t rfl
    simp [linkAt?_eq_some.mpr (status_ok hs)] at h

theorem location_start (r : Reached) (target : String) :
    (if target.toList.head? = some '/' then Reached.root else r).location =
      targetStart r.location target := by
  unfold targetStart
  split <;> rfl

section

variable {fs : FileSystem} {strict : Bool}
  {enter : List Location → Reached → List String → Followed} {pending : List Location} {r : Reached}
  {piece : String} {rest : List String}

theorem follow_stay (hd : Segments.isDropped piece = true) :
    follow fs strict enter pending r (piece :: rest) = follow fs strict enter pending r rest := by
  rw [follow]
  exact if_pos hd

theorem follow_up :
    follow fs strict enter pending r (".." :: rest) = follow fs strict enter pending r.up rest := by
  rw [follow, if_neg (by decide), if_pos rfl]

theorem follow_null (hd : Segments.isDropped piece = false) (hu : piece ≠ "..")
    (hz : '\x00' ∈ piece.toList) :
    follow fs strict enter pending r (piece :: rest) = .failed .nullCharacter := by
  have hd' : ¬ (piece.isEmpty || piece == ".") = true := by
    simp only [Segments.isDropped] at hd
    simp [hd]
  rw [follow, if_neg hd', if_neg hu, if_pos (by simpa using hz)]

/-- The common front of the equations for a piece that is a name. -/
theorem follow_named (hn : IsName piece) : follow fs strict enter pending r (piece :: rest) =
    match fs.status (r.location ++ [piece]) with
    | .error fault =>
      if strict then .failed (obstacle (r.down piece).shown fault)
      else follow fs strict enter pending (r.down piece) rest
    | .ok (.link target) =>
      if pending.contains (r.location ++ [piece]) then
        if strict then .failed (fs.loopError (r.down piece))
        else .looped (joinRaw (r.location ++ [piece]) rest)
      else
        match enter ((r.location ++ [piece]) :: pending)
          (if target.toList.head? = some '/' then Reached.root else r) (pieces '/' target) with
        | .reached reached => follow fs strict enter pending reached rest
        | .looped pieces => .looped (joinRaw pieces rest)
        | .failed e => .failed e
    | .ok _ => follow fs strict enter pending (r.down piece) rest := by
  have hd : ¬ (piece.isEmpty || piece == ".") = true := by
    have h := hn.notDropped
    simp only [Segments.isDropped] at h
    simp [h]
  have hz : ¬ piece.toList.contains '\x00' = true := by simpa using hn.noNull
  rw [follow, if_neg hd, if_neg hn.notUp, if_neg hz]
  rfl

theorem follow_name (hn : IsName piece) (hl : fs.linkAt? (r.location ++ [piece]) = none)
    (hs : strict = true → fs.Stands (r.location ++ [piece])) :
    follow fs strict enter pending r (piece :: rest) =
      follow fs strict enter pending (r.down piece) rest := by
  rw [follow_named hn]
  rcases status_plain hl with ⟨e, he, hne⟩ | ⟨f, hf⟩
  · cases e with
    | directory => simp [he]
    | file c => simp [he]
    | link t => exact absurd rfl (hne t)
  · cases strict with
    | false => simp [hf]
    | true =>
      obtain ⟨e, he, _⟩ := hs rfl
      simp [status, he] at hf

theorem follow_link {target : String} {reached : Reached} (hn : IsName piece)
    (hl : fs.linkAt? (r.location ++ [piece]) = some target) (hp : r.location ++ [piece] ∉ pending)
    (hin : enter ((r.location ++ [piece]) :: pending)
      (if target.toList.head? = some '/' then Reached.root else r) (pieces '/' target) =
        .reached reached) :
    follow fs strict enter pending r (piece :: rest) =
      follow fs strict enter pending reached rest := by
  rw [follow_named hn]
  simp [status_link hl, hp, hin]

/-- What following one piece more can come to. -/
inductive FollowCase (fs : FileSystem) (strict : Bool)
    (enter : List Location → Reached → List String → Followed) (pending : List Location)
    (r : Reached) (piece : String) (rest : List String) : Followed → Prop where
  | stay (dropped : Segments.isDropped piece = true) :
      FollowCase fs strict enter pending r piece rest (follow fs strict enter pending r rest)
  | up (up : piece = "..") :
      FollowCase fs strict enter pending r piece rest (follow fs strict enter pending r.up rest)
  | failed (e : ResolveError) : FollowCase fs strict enter pending r piece rest (.failed e)
  | name (named : IsName piece) (plain : fs.linkAt? (r.location ++ [piece]) = none)
      (stands : strict = true → fs.Stands (r.location ++ [piece])) :
      FollowCase fs strict enter pending r piece rest
        (follow fs strict enter pending (r.down piece) rest)
  | loop (lenient : strict = false) :
      FollowCase fs strict enter pending r piece rest
        (.looped (joinRaw (r.location ++ [piece]) rest))
  | link (target : String) (reached : Reached) (named : IsName piece)
      (found : fs.linkAt? (r.location ++ [piece]) = some target)
      (fresh : r.location ++ [piece] ∉ pending)
      (inner : enter ((r.location ++ [piece]) :: pending)
        (if target.toList.head? = some '/' then Reached.root else r) (pieces '/' target) =
          .reached reached) :
      FollowCase fs strict enter pending r piece rest (follow fs strict enter pending reached rest)
  | innerLoop (target : String) (ps : List String)
      (found : fs.linkAt? (r.location ++ [piece]) = some target)
      (fresh : r.location ++ [piece] ∉ pending)
      (inner : enter ((r.location ++ [piece]) :: pending)
        (if target.toList.head? = some '/' then Reached.root else r) (pieces '/' target) =
          .looped ps) : FollowCase fs strict enter pending r piece rest (.looped (joinRaw ps rest))

theorem follow_case (hs : '/' ∉ piece.toList) :
    FollowCase fs strict enter pending r piece rest
      (follow fs strict enter pending r (piece :: rest)) := by
  cases piece_case hs with
  | stay hd =>
    rw [follow_stay hd]
    exact .stay hd
  | up hu =>
    subst hu
    rw [follow_up]
    exact .up rfl
  | null hd hu hz =>
    rw [follow_null hd hu hz]
    exact .failed _
  | name hn =>
    rw [follow_named hn]
    cases hl : fs.linkAt? (r.location ++ [piece]) with
    | none =>
      rcases status_plain hl with ⟨e, he, hne⟩ | ⟨f, hf⟩
      · have hst : strict = true → fs.Stands (r.location ++ [piece]) :=
          fun _ => ⟨e, status_ok he, hne⟩
        cases e with
        | directory => simpa [he] using FollowCase.name hn hl hst
        | file c => simpa [he] using FollowCase.name hn hl hst
        | link t => exact absurd rfl (hne t)
      · cases strict with
        | true => simpa [hf] using FollowCase.failed _
        | false => simpa [hf] using FollowCase.name hn hl (by simp)
    | some target =>
      simp only [status_link hl]
      by_cases hp : r.location ++ [piece] ∈ pending
      · cases strict with
        | true => simpa [hp] using FollowCase.failed _
        | false => simpa [hp] using FollowCase.loop rfl
      · simp only [List.contains_eq_mem, hp, decide_false, Bool.false_eq_true, ↓reduceIte]
        split
        · rename_i k hk
          exact .link target k hn hl hp hk
        · rename_i ps hps
          exact .innerLoop target ps hl hp hps
        · exact .failed _

end

/-- What following with a bound on the depth comes to is what following comes to,
whatever the bound. -/
theorem followLinks_eq (fs : FileSystem) (strict : Bool) (depth : Nat) :
    ∃ enter, followLinks fs strict depth = follow fs strict enter := by
  cases depth with
  | zero => exact ⟨_, rfl⟩
  | succ depth => exact ⟨_, rfl⟩

/-- What is reached by following pieces is where they lead. -/
theorem follow_leads {fs : FileSystem} {strict : Bool}
    {enter : List Location → Reached → List String → Followed} {pending : List Location}
    {r r' : Reached} {ps : List String} (hs : ∀ p ∈ ps, '/' ∉ p.toList)
    (henter : ∀ pending r r' ps, (∀ p ∈ ps, '/' ∉ p.toList) → enter pending r ps = .reached r' →
      ∃ us, Leads fs strict r.location ps r'.location us)
    (h : follow fs strict enter pending r ps = .reached r') :
    ∃ us, Leads fs strict r.location ps r'.location us := by
  induction ps generalizing r with
  | nil =>
    simp only [follow, Followed.reached.injEq] at h
    exact ⟨[], h ▸ .done r.location⟩
  | cons p ps ih =>
    have hrest : ∀ p ∈ ps, '/' ∉ p.toList := fun q hq => hs q (List.mem_cons_of_mem _ hq)
    have hc : FollowCase fs strict enter pending r p ps _ := follow_case (hs p (by simp))
    rw [h] at hc
    generalize hf : Followed.reached r' = f at hc
    cases hc with
    | stay hd =>
      obtain ⟨us, hl⟩ := ih hrest hf.symm
      exact ⟨us, .stay hd hl⟩
    | up hu =>
      obtain ⟨us, hl⟩ := ih hrest hf.symm
      exact ⟨us, hu ▸ .up hl⟩
    | failed e => cases hf
    | name hn hp hst =>
      obtain ⟨us, hl⟩ := ih hrest hf.symm
      exact ⟨us, .name hn hp hst hl⟩
    | loop => cases hf
    | link target k hn hl _ hin =>
      obtain ⟨us, hi⟩ := henter _ _ _ _ (fun p hp => (mem_pieces hp).1) hin
      obtain ⟨vs, hv⟩ := ih hrest hf.symm
      rw [location_start] at hi
      exact ⟨_, .link hn hl hi hv⟩
    | innerLoop => cases hf

theorem followLinks_leads {fs : FileSystem} {strict : Bool} {depth : Nat} {pending : List Location}
    {r r' : Reached} {ps : List String} (hs : ∀ p ∈ ps, '/' ∉ p.toList)
    (h : followLinks fs strict depth pending r ps = .reached r') :
    ∃ us, Leads fs strict r.location ps r'.location us := by
  induction depth generalizing pending r r' ps with
  | zero => exact follow_leads hs (by simp) h
  | succ depth ih => exact follow_leads hs (fun _ _ _ _ hs h => ih hs h) h

/-- Pieces are followed one part after the other. -/
theorem follow_append {fs : FileSystem} {strict : Bool}
    {enter : List Location → Reached → List String → Followed} {pending : List Location}
    {r r' : Reached} {ps qs : List String} (hs : ∀ p ∈ ps, '/' ∉ p.toList)
    (h : follow fs strict enter pending r ps = .reached r') :
    follow fs strict enter pending r (ps ++ qs) = follow fs strict enter pending r' qs := by
  induction ps generalizing r with
  | nil =>
    simp only [follow, Followed.reached.injEq] at h
    rw [h, List.nil_append]
  | cons p ps ih =>
    have hrest : ∀ p ∈ ps, '/' ∉ p.toList := fun q hq => hs q (List.mem_cons_of_mem _ hq)
    have hc : FollowCase fs strict enter pending r p ps _ := follow_case (hs p (by simp))
    rw [h] at hc
    generalize hf : Followed.reached r' = f at hc
    rw [List.cons_append]
    cases hc with
    | stay hd => rw [follow_stay hd, ih hrest hf.symm]
    | up hu => rw [hu, follow_up, ih hrest hf.symm]
    | failed e => cases hf
    | name hn hp hst => rw [follow_name hn hp hst, ih hrest hf.symm]
    | loop => cases hf
    | link target k hn hl hp hin => rw [follow_link hn hl hp hin, ih hrest hf.symm]
    | innerLoop => cases hf

/-- The links of a file system, where they stand. -/
def links (fs : FileSystem) : List Location :=
  (fs.entries.filter fun e => match e.2 with
    | .link _ => true
    | _ => false).map (·.1)

theorem length_links (fs : FileSystem) : fs.links.length = fs.linkCount := by
  unfold links linkCount
  exact (List.length_map _).trans List.countP_eq_length_filter.symm

theorem mem_links {fs : FileSystem} {l : Location} {target : String}
    (h : fs.linkAt? l = some target) : l ∈ fs.links := by
  have he := linkAt?_eq_some.mp h
  have hne : l ≠ [] := by
    rintro rfl
    simp [entry?_nil] at he
  exact List.mem_map.mpr ⟨(l, .link target), List.mem_filter.mpr ⟨mem_entries he hne, rfl⟩, rfl⟩

/-- The links being followed, and whether the depth that is left is enough for those
that are not. -/
structure Pending (fs : FileSystem) (depth : Nat) (pending : List Location) : Prop where
  nodup : pending.Nodup
  links : ∀ x ∈ pending, x ∈ fs.links
  enough : fs.linkCount ≤ depth + pending.length

theorem pending_nil (fs : FileSystem) : fs.Pending fs.linkCount [] :=
  ⟨by simp, by simp, by simp⟩

/-- A link that is not pending can be entered: not all the depth is used up. -/
theorem Pending.enter {fs : FileSystem} {depth : Nat} {pending : List Location} {x : Location}
    {target : String} (h : fs.Pending depth pending) (hx : fs.linkAt? x = some target)
    (hp : x ∉ pending) : ∃ d, depth = d + 1 ∧ fs.Pending d (x :: pending) := by
  have hn : (x :: pending).Nodup := List.nodup_cons.mpr ⟨hp, h.nodup⟩
  have hm : ∀ y ∈ x :: pending, y ∈ fs.links := by
    intro y hy
    rcases List.mem_cons.mp hy with rfl | hy
    · exact mem_links hx
    · exact h.links y hy
  have hl := hn.length_le_of_subset hm
  rw [length_links, List.length_cons] at hl
  have he := h.enough
  cases depth with
  | zero => omega
  | succ d => exact ⟨d, rfl, hn, hm, by simp only [List.length_cons]; omega⟩

theorem follow_strict {fs : FileSystem} {enter : List Location → Reached → List String → Followed}
    {pending : List Location} {r : Reached} {ps qs : List String} (hs : ∀ p ∈ ps, '/' ∉ p.toList)
    (henter : ∀ x target r qs, fs.linkAt? x = some target → x ∉ pending →
      enter (x :: pending) r (pieces '/' target) ≠ .looped qs) :
    follow fs true enter pending r ps ≠ .looped qs := by
  induction ps generalizing r with
  | nil => simp [follow]
  | cons p ps ih =>
    intro h
    have hrest : ∀ p ∈ ps, '/' ∉ p.toList := fun q hq => hs q (List.mem_cons_of_mem _ hq)
    have hc : FollowCase fs true enter pending r p ps _ := follow_case (hs p (by simp))
    rw [h] at hc
    generalize hf : Followed.looped qs = f at hc
    cases hc with
    | stay | up | name | link => exact ih hrest hf.symm
    | failed e => cases hf
    | loop hstrict => cases hstrict
    | innerLoop target _ hl hp hin => exact henter _ _ _ _ hl hp hin

/-- A strict resolution never stops at the bound: all links would be pending there. -/
theorem followLinks_strict {fs : FileSystem} {depth : Nat} {pending : List Location} {r : Reached}
    {ps qs : List String} (hp : fs.Pending depth pending) (hs : ∀ p ∈ ps, '/' ∉ p.toList) :
    followLinks fs true depth pending r ps ≠ .looped qs := by
  induction depth generalizing pending r ps qs with
  | zero =>
    apply follow_strict hs
    intro x target _ _ hx hn
    obtain ⟨d, hd, _⟩ := hp.enter hx hn
    omega
  | succ depth ih =>
    apply follow_strict hs
    intro x target _ _ hx hn
    obtain ⟨d, hd, hp'⟩ := hp.enter hx hn
    have he : depth = d := by omega
    subst he
    exact ih hp' fun p hm => (mem_pieces hm).1

/-- Where pieces lead is reached by following them. -/
theorem Leads.followLinks {fs : FileSystem} {strict : Bool} {l m : Location} {ps : List String}
    {us : List Location} (h : Leads fs strict l ps m us) {depth : Nat} {pending : List Location}
    (hp : fs.Pending depth pending) (hd : ∀ x ∈ us, x ∉ pending) (shown : Path) :
    ∃ r, FileSystem.followLinks fs strict depth pending ⟨l, shown⟩ ps = .reached r ∧
      r.location = m := by
  induction h generalizing depth pending shown with
  | done l =>
    obtain ⟨enter, he⟩ := followLinks_eq fs strict depth
    exact ⟨⟨l, shown⟩, by rw [he, follow], rfl⟩
  | stay hs _ ih =>
    obtain ⟨r, hr, hm⟩ := ih hp hd shown
    obtain ⟨enter, he⟩ := followLinks_eq fs strict depth
    rw [he] at hr ⊢
    exact ⟨r, by rw [follow_stay hs, hr], hm⟩
  | @up l m ps us _ ih =>
    obtain ⟨r, hr, hm⟩ := ih hp hd (Reached.up ⟨l, shown⟩).shown
    obtain ⟨enter, he⟩ := followLinks_eq fs strict depth
    rw [he] at hr ⊢
    exact ⟨r, by rw [follow_up, ← hr]; rfl, hm⟩
  | @name l m piece ps us hn hl hst _ ih =>
    obtain ⟨r, hr, hm⟩ := ih hp hd (Reached.down ⟨l, shown⟩ piece).shown
    obtain ⟨enter, he⟩ := followLinks_eq fs strict depth
    rw [he] at hr ⊢
    exact ⟨r, by rw [follow_name hn hl hst, ← hr]; rfl, hm⟩
  | @link l k m piece target ps us vs hn hl inner _ ihi ihr =>
    have hfresh : l ++ [piece] ∉ pending := hd _ (by simp)
    obtain ⟨d, rfl, hp'⟩ := hp.enter hl hfresh
    have hin : l ++ [piece] ∉ us := Leads.not_entered hl (by simpa using inner)
    have hd' : ∀ x ∈ us, x ∉ (l ++ [piece]) :: pending := by
      intro x hx hm
      rcases List.mem_cons.mp hm with rfl | hm
      · exact hin hx
      · exact hd x (by simp [hx]) hm
    -- The target is followed from the root or from here, and the shown path differs with it.
    have hstart : ∃ s, (if target.toList.head? = some '/' then Reached.root else ⟨l, shown⟩) =
        ⟨targetStart l target, s⟩ := by
      unfold targetStart
      split
      · exact ⟨_, rfl⟩
      · exact ⟨_, rfl⟩
    obtain ⟨s, hs⟩ := hstart
    obtain ⟨⟨k', shown'⟩, hk, rfl⟩ := ihi hp' hd' s
    obtain ⟨r, hr, hm⟩ := ihr hp (fun x hx => hd x (by simp [hx])) shown'
    refine ⟨r, ?_, hm⟩
    rw [← hr]
    exact follow_link hn hl hfresh (by rw [hs]; exact hk)

theorem startOf_absolute {fs : FileSystem} {p : Path} (h : p.isAbsolute = true) :
    fs.startOf p = some Reached.root :=
  if_pos h

theorem startOf_directory {fs : FileSystem} (hw : fs.WellFormed) {p : Path} {start : Reached}
    (h : fs.startOf p = some start) : fs.entry? start.location = some .directory := by
  unfold startOf at h
  split at h
  · rw [← Option.some.inj h]
    exact fs.entry?_nil
  · obtain ⟨here, hh, rfl⟩ := Option.map_eq_some_iff.mp h
    exact hw.here hh

theorem startOf_stands {fs : FileSystem} (hw : fs.WellFormed) {p : Path} {start : Reached}
    (h : fs.startOf p = some start) : fs.Stands start.location :=
  stands_directory (startOf_directory hw h)

theorem resolve_reached {fs : FileSystem} {strict : Bool} {p : Path} {start r : Reached}
    (hs : fs.startOf p = some start)
    (h : FileSystem.followLinks fs strict fs.linkCount [] start p.segments = .reached r) :
    fs.resolve strict p = .ok r.location := by
  simp only [resolve, hs, h]

theorem resolve_failed {fs : FileSystem} {strict : Bool} {p : Path} {start : Reached}
    {e : ResolveError} (hs : fs.startOf p = some start)
    (h : FileSystem.followLinks fs strict fs.linkCount [] start p.segments = .failed e) :
    fs.resolve strict p = .error e := by
  simp only [resolve, hs, h]

/-- A path that starts nowhere cannot be followed. -/
theorem startOf_of_resolveLenient {fs : FileSystem} {p : Path} {l : Location}
    (h : fs.resolveLenient p = .ok l) : ∃ start, fs.startOf p = some start := by
  cases hs : fs.startOf p with
  | none => simp [FileSystem.resolveLenient, FileSystem.resolve, hs] at h
  | some start => exact ⟨start, rfl⟩

/-- The start of a path is always found. -/
theorem resolveStrict_start {fs : FileSystem} {p : Path} {start : Reached}
    (h : fs.startOf p = some start) : fs.resolveStrict ⟨p.anchor, []⟩ = .ok start.location := by
  obtain ⟨enter, he⟩ := followLinks_eq fs true fs.linkCount
  have hs : fs.startOf ⟨p.anchor, []⟩ = some start := h
  refine resolve_reached hs ?_
  rw [he, follow]

/-- Resolution finds where a path leads. -/
theorem Leads.resolve {fs : FileSystem} {strict : Bool} {p : Path} {start : Reached} {l : Location}
    {us : List Location} (hs : fs.startOf p = some start)
    (h : Leads fs strict start.location p.segments l us) : fs.resolve strict p = .ok l := by
  obtain ⟨r, hf, rfl⟩ := h.followLinks fs.pending_nil (by simp) start.shown
  exact resolve_reached hs hf

theorem Denotes.resolveLenient {fs : FileSystem} {p : Path} {l : Location} (h : fs.Denotes p l) :
    fs.resolveLenient p = .ok l := by
  obtain ⟨start, us, hs, hl⟩ := h
  exact hl.resolve hs

/-- A strict resolution that succeeds has followed the path to its end. -/
theorem followLinks_of_resolveStrict {fs : FileSystem} {p : Path} {l : Location}
    (hs : ∀ s ∈ p.segments, '/' ∉ s.toList) (h : fs.resolveStrict p = .ok l) :
    ∃ start r, fs.startOf p = some start ∧ r.location = l ∧
      FileSystem.followLinks fs true fs.linkCount [] start p.segments = .reached r := by
  simp only [FileSystem.resolveStrict, resolve] at h
  split at h
  · simp at h
  · rename_i start hstart
    split at h
    · rename_i r hf
      exact ⟨start, r, hstart, Except.ok.inj h, hf⟩
    · simp at h
    · rename_i qs hf
      exact absurd hf (followLinks_strict fs.pending_nil hs)

/-- Strict resolution succeeds exactly where a path leads strictly. -/
theorem resolveStrict_iff {fs : FileSystem} {p : Path} {l : Location}
    (hs : ∀ s ∈ p.segments, '/' ∉ s.toList) :
    fs.resolveStrict p = .ok l ↔
      ∃ start us, fs.startOf p = some start ∧ Leads fs true start.location p.segments l us := by
  constructor
  · intro h
    obtain ⟨start, r, hstart, rfl, hf⟩ := followLinks_of_resolveStrict hs h
    obtain ⟨us, hl⟩ := followLinks_leads hs hf
    exact ⟨start, us, hstart, hl⟩
  · rintro ⟨start, us, hstart, hl⟩
    exact hl.resolve hstart

/-- Strict resolution finds what a path denotes, and that stands. -/
theorem resolveStrict_denotes {fs : FileSystem} (hw : fs.WellFormed) {p : Path} {l : Location}
    (hs : ∀ s ∈ p.segments, '/' ∉ s.toList) (h : fs.resolveStrict p = .ok l) :
    fs.Denotes p l ∧ fs.Stands l := by
  obtain ⟨start, us, hstart, hl⟩ := (resolveStrict_iff hs).mp h
  exact ⟨⟨start, us, hstart, hl.relax false⟩, hl.stands hw (startOf_stands hw hstart)⟩

/-- What stands is found strictly where it is. -/
theorem resolveStrict_at {fs : FileSystem} (hw : fs.WellFormed) {l : Location} (h : fs.Stands l) :
    fs.resolveStrict (Path.at l) = .ok l :=
  Leads.resolve (p := Path.at l) rfl (h.leads hw)

/-- A path leads to the same place when the front of it is replaced by what that denotes. -/
theorem leads_behind {fs : FileSystem} (hw : fs.WellFormed) {strict : Bool} {p : Path} {j : Nat}
    {x l : Location} {us : List Location} (hs : ∀ s ∈ p.segments, '/' ∉ s.toList)
    (hx : fs.resolveStrict ⟨p.anchor, p.segments.take j⟩ = .ok x)
    (h : Leads fs strict [] (x ++ p.segments.drop j) l us) :
    ∃ start vs, fs.startOf p = some start ∧ Leads fs strict start.location p.segments l vs := by
  obtain ⟨start, us₁, hstart, hfront⟩ :=
    (resolveStrict_iff (p := ⟨p.anchor, p.segments.take j⟩) fun s hm =>
      hs s (List.mem_of_mem_take hm)).mp hx
  have hstart : fs.startOf p = some start := hstart
  obtain ⟨k, us₂, us₃, hk, hrest, _⟩ := h.split
  have hstands := hfront.stands hw (startOf_stands hw hstart)
  obtain ⟨rfl, _⟩ := hk.unique (hstands.leads hw)
  have hwhole := (hfront.relax strict).append hrest
  rw [List.take_append_drop] at hwhole
  exact ⟨start, _, hstart, hwhole⟩

theorem mem_joinRaw {p : String} {ps rest : List String} (h : p ∈ joinRaw ps rest) :
    p ∈ ps ∨ p ∈ rest := by
  unfold joinRaw at h
  split at h
  · exact .inr h
  · exact List.mem_append.mp h

/-- The raw pieces of a path that runs into a loop are pieces of names and paths. -/
theorem follow_looped {fs : FileSystem} {strict : Bool}
    {enter : List Location → Reached → List String → Followed} {pending : List Location}
    {r : Reached} {ps qs : List String} (hs : ∀ p ∈ ps, '/' ∉ p.toList)
    (hr : ∀ n ∈ r.location, IsName n)
    (hreached : ∀ pending r r' ps, (∀ p ∈ ps, '/' ∉ p.toList) → enter pending r ps = .reached r' →
      ∃ us, Leads fs strict r.location ps r'.location us)
    (hlooped : ∀ pending r ps qs, (∀ p ∈ ps, '/' ∉ p.toList) → (∀ n ∈ r.location, IsName n) →
      enter pending r ps = .looped qs → ∀ q ∈ qs, '/' ∉ q.toList)
    (h : follow fs strict enter pending r ps = .looped qs) : ∀ q ∈ qs, '/' ∉ q.toList := by
  induction ps generalizing r with
  | nil => simp [follow] at h
  | cons p ps ih =>
    have hrest : ∀ p ∈ ps, '/' ∉ p.toList := fun q hq => hs q (List.mem_cons_of_mem _ hq)
    have hstart : ∀ target : String,
        ∀ n ∈ (if target.toList.head? = some '/' then Reached.root else r).location, IsName n := by
      intro target
      split
      · simp [Reached.root]
      · exact hr
    have hc : FollowCase fs strict enter pending r p ps _ := follow_case (hs p (by simp))
    rw [h] at hc
    generalize hf : Followed.looped qs = f at hc
    cases hc with
    | stay => exact ih hrest hr hf.symm
    | up => exact ih hrest (fun n hn => hr n ((List.dropLast_prefix _).subset hn)) hf.symm
    | failed e => cases hf
    | name hn => exact ih hrest (forall_mem_snoc hr hn) hf.symm
    | loop =>
      cases hf
      intro q hq
      rcases mem_joinRaw hq with hq | hq
      · exact forall_mem_snoc (fun n hn => (hr n hn).noSlash) (hs p (by simp)) q hq
      · exact hrest q hq
    | link target k hn hl _ hin =>
      obtain ⟨us, hlead⟩ := hreached _ _ _ _ (fun p hp => (mem_pieces hp).1) hin
      exact ih hrest (hlead.names (hstart target)) hf.symm
    | innerLoop target raw _ _ hin =>
      cases hf
      intro q hq
      rcases mem_joinRaw hq with hq | hq
      · exact hlooped _ _ _ _ (fun p hp => (mem_pieces hp).1) (hstart target) hin q hq
      · exact hrest q hq

theorem followLinks_looped {fs : FileSystem} {strict : Bool} {depth : Nat} {pending : List Location}
    {r : Reached} {ps qs : List String} (hs : ∀ p ∈ ps, '/' ∉ p.toList)
    (hr : ∀ n ∈ r.location, IsName n)
    (h : FileSystem.followLinks fs strict depth pending r ps = .looped qs) :
    ∀ q ∈ qs, '/' ∉ q.toList := by
  induction depth generalizing pending r ps qs with
  | zero =>
    refine follow_looped hs hr (by simp) ?_ h
    intro _ _ _ qs _ _ hq
    cases hq
    simp
  | succ depth ih =>
    exact follow_looped hs hr (fun _ _ _ _ hs h => followLinks_leads hs h)
      (fun _ _ _ _ hs hr h => ih hs hr h) h

/-- A path is always resolved to names. -/
theorem resolve_names {fs : FileSystem} (hw : fs.WellFormed) {strict : Bool} {p : Path}
    {l : Location} (hs : ∀ s ∈ p.segments, '/' ∉ s.toList) (h : fs.resolve strict p = .ok l) :
    ∀ n ∈ l, IsName n := by
  unfold resolve at h
  split at h
  · cases h
  · rename_i start hstart
    have hnames := (startOf_stands hw hstart).names hw
    split at h
    · rename_i r hf
      cases h
      obtain ⟨us, hl⟩ := followLinks_leads hs hf
      exact hl.names hnames
    · cases h
    · rename_i qs hf
      have hslash := followLinks_looped hs hnames hf
      dsimp only at h
      split at h
      · cases h
      · rename_i hz
        have hl : Segments.collapse qs = l := by
          split at h
          · cases h
          · exact Except.ok.inj h
        subst hl
        intro n hn
        obtain ⟨hm, hd, hu⟩ := Segments.mem_collapse hn
        refine ⟨hd, hu, hslash n hm, fun hnull => hz ?_⟩
        exact List.any_eq_true.mpr ⟨n, hn, by simpa using hnull⟩

/-- Behind a path that is found, one piece more fails only for what is at that place. -/
theorem followLinks_snoc {fs : FileSystem} {strict : Bool} {depth : Nat} {pending : List Location}
    {start r : Reached} {ps : List String} (piece : String) (hs : ∀ p ∈ ps, '/' ∉ p.toList)
    (h : FileSystem.followLinks fs strict depth pending start ps = .reached r) :
    FileSystem.followLinks fs strict depth pending start (ps ++ [piece]) =
      FileSystem.followLinks fs strict depth pending r [piece] := by
  obtain ⟨enter, he⟩ := followLinks_eq fs strict depth
  rw [he] at h ⊢
  exact follow_append hs h

theorem isBlocked_iff {fs : FileSystem} {l : Location} :
    fs.isBlocked l = true ↔
      ∃ k < l.length, ∃ content, fs.entry? (l.take k) = some (.file content) := by
  simp only [isBlocked, List.any_eq_true, List.mem_range]
  refine exists_congr fun k => and_congr_right fun _ => ?_
  split
  · rename_i content he
    simp [he]
  · rename_i hn
    simpa using hn

/-- Nothing blocks the way into a directory. -/
theorem not_isBlocked {fs : FileSystem} (hw : fs.WellFormed) {l : Location} {n : String}
    (hd : fs.entry? l = some .directory) : fs.isBlocked (l ++ [n]) = false := by
  rw [← Bool.not_eq_true, isBlocked_iff]
  rintro ⟨k, hk, content, hf⟩
  have hk' : k ≤ l.length := by
    rw [List.length_append, List.length_singleton] at hk
    omega
  rw [List.take_append_of_le_length hk'] at hf
  have hdir : fs.entry? (l.take k) = some .directory := by
    by_cases hkl : k = l.length
    · simpa [hkl] using hd
    · have hne : l.drop k ≠ [] := by
        intro h
        have := List.drop_eq_nil_iff.mp h
        omega
      exact hw.directory (by simpa using hd) hne
  simp [hdir] at hf

/-- A free name in a directory is missing. -/
theorem resolveStrict_free {fs : FileSystem} (hw : fs.WellFormed) {l : Location} {n : String}
    (hd : fs.entry? l = some .directory) (hn : IsName n) (hfree : fs.entry? (l ++ [n]) = none) :
    ∃ shown, fs.resolveStrict (Path.at (l ++ [n])) = .error (.missing shown) := by
  obtain ⟨enter, he⟩ := followLinks_eq fs true fs.linkCount
  have hlead := (stands_directory hd).leads hw
  obtain ⟨r, hr, hl⟩ := hlead.followLinks fs.pending_nil (by simp) Reached.root.shown
  have hstatus : fs.status (r.location ++ [n]) = .error .missing := by
    simp [status, hl, hfree, not_isBlocked hw hd]
  have hsnoc := followLinks_snoc n (fun s h => (hw.named hd s h).noSlash) hr
  refine ⟨(r.down n).shown, resolve_failed rfl (hsnoc.trans ?_)⟩
  rw [he, follow_named hn]
  simp [hstatus, obstacle]

/-- Behind a file nothing is missing: the file is in the way. -/
theorem resolveStrict_behind_file {fs : FileSystem} (hw : fs.WellFormed) {a : Anchor}
    {ps : List String} {piece : String} {l : Location} {content : ByteArray} {shown : Path}
    (hs : ∀ p ∈ ps ++ [piece], '/' ∉ p.toList) (hl : fs.resolveStrict ⟨a, ps⟩ = .ok l)
    (hf : fs.entry? l = some (.file content)) :
    fs.resolveStrict ⟨a, ps ++ [piece]⟩ ≠ .error (.missing shown) := by
  have hps : ∀ p ∈ ps, '/' ∉ p.toList := fun p hp => hs p (by simp [hp])
  obtain ⟨start, r, hstart, rfl, hr⟩ := followLinks_of_resolveStrict hps hl
  have hsnoc := followLinks_snoc piece hps hr
  obtain ⟨enter, he⟩ := followLinks_eq fs true fs.linkCount
  cases piece_case (hs piece (by simp)) with
  | stay hd =>
    rw [he, follow_stay hd, follow, ← he] at hsnoc
    simp [FileSystem.resolveStrict, resolve_reached (p := ⟨a, ps ++ [piece]⟩) hstart hsnoc]
  | up hu =>
    rw [he, hu, follow_up, follow, ← he, ← hu] at hsnoc
    simp [FileSystem.resolveStrict, resolve_reached (p := ⟨a, ps ++ [piece]⟩) hstart hsnoc]
  | null hd hu hz =>
    rw [he, follow_null hd hu hz, ← he] at hsnoc
    simp [FileSystem.resolveStrict, resolve_failed (p := ⟨a, ps ++ [piece]⟩) hstart hsnoc]
  | name hn =>
    have hnone : fs.entry? (r.location ++ [piece]) = none := by
      cases hentry : fs.entry? (r.location ++ [piece]) with
      | none => rfl
      | some e => simp [hw.nested hentry] at hf
    have hblocked : fs.isBlocked (r.location ++ [piece]) = true :=
      isBlocked_iff.mpr ⟨r.location.length, by simp, content, by simpa using hf⟩
    have hstatus : fs.status (r.location ++ [piece]) = .error .notDirectory := by
      simp [status, hnone, hblocked]
    rw [he, follow_named hn, hstatus, ← he] at hsnoc
    simp [FileSystem.resolveStrict, resolve_failed (p := ⟨a, ps ++ [piece]⟩) hstart hsnoc, obstacle]

end PhpPages.FileSystem
