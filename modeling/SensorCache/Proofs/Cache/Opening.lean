import SensorCache.Proofs.Cache.Contents

/-!
# Opening a cache

A cache finds its directory again as the parent of its snapshot, whatever the path of the directory
looks like (`enter_parent`). Opened in a directory that has neither of its files it makes both,
without records.
-/

namespace SensorCache

open Disk

variable {d e : Disk} {l : Place} {p : Path} {s t : String}

namespace Disk

/-! ## Parents -/

theorem enter_eq_ok : d.enter p = .ok l ↔
    d.follow (if p.isAbsolute then [] else d.here) p.parts = .ok l ∧ d.isDirectoryAt l = true := by
  unfold enter
  cases hf : d.follow (if p.isAbsolute then [] else d.here) p.parts with
  | error x => simp
  | ok m =>
    simp only [isDirectoryAt, Except.ok.injEq]
    cases hn : d.node? m with
    | none =>
      simp only [reduceCtorEq, false_iff, not_and]
      rintro rfl
      simp [hn]
    | some n =>
      cases n with
      | file b u =>
        simp only [reduceCtorEq, false_iff, not_and]
        rintro rfl
        simp [hn, Node.isDirectory]
      | directory u =>
        simp only [Except.ok.injEq]
        refine ⟨?_, fun h => h.1⟩
        rintro rfl
        simp [hn, Node.isDirectory]

theorem follow_slash (d : Disk) (a : Place) (ps : List String) :
    d.follow a (ps ++ [""]) = d.follow a ps := by
  rw [follow_append]
  cases d.follow a ps <;> rfl

theorem follow_dot {a : Place} {ps : List String} (h : d.follow a (ps ++ ["."]) = .ok l) :
    d.follow a ps = .ok l := by
  rw [follow_append] at h
  cases hf : d.follow a ps with
  | error x =>
    rw [hf] at h
    cases h
  | ok m =>
    rw [hf] at h
    have hm : d.follow m ["."] = .ok l := h
    simp only [follow] at hm
    rw [if_neg (by decide)] at hm
    split at hm
    · cases hm
    · cases hm
    · rwa [if_pos (by decide)] at hm

theorem parts_slash (x y : List Char) :
    Path.parts ⟨String.ofList (x ++ '/' :: y)⟩ =
      Path.parts ⟨String.ofList x⟩ ++ Path.parts ⟨String.ofList y⟩ := by
  simp only [Path.parts, String.toList_ofList]
  exact Path.partsFrom_append_slash x [] y

theorem isAbsolute_append {x : List Char} (hx : x ≠ []) (y : List Char) :
    Path.isAbsolute ⟨String.ofList (x ++ y)⟩ = Path.isAbsolute ⟨String.ofList x⟩ := by
  simp only [Path.isAbsolute, String.toList_ofList]
  rw [List.head?_append, Option.or_of_isSome (by simpa using hx)]

/-- Slashes and dots at the end of a path lead nowhere else. -/
theorem enter_dropIdleEnd (r : List Char) (h : d.enter ⟨String.ofList r.reverse⟩ = .ok l) :
    d.enter ⟨String.ofList (Path.dropIdleEnd r).reverse⟩ = .ok l := by
  fun_induction Path.dropIdleEnd r with
  | case1 => exact h
  | case2 r hr ih =>
    refine ih ?_
    have hne : r.reverse ≠ [] := fun hnil => hr (List.reverse_eq_nil_iff.mp hnil)
    rw [enter_eq_ok, List.reverse_cons, parts_slash, isAbsolute_append hne,
      show Path.parts ⟨String.ofList []⟩ = [""] from rfl, follow_slash] at h
    exact enter_eq_ok.mpr h
  | case3 r ih =>
    refine ih ?_
    have hrev : ('.' :: '/' :: r).reverse = (r.reverse ++ ['/']) ++ ['.'] := by simp
    rw [enter_eq_ok, hrev, isAbsolute_append (by simp), List.append_assoc, List.singleton_append,
      parts_slash] at h
    rw [enter_eq_ok, List.reverse_cons, parts_slash, show Path.parts ⟨String.ofList []⟩ = [""] from rfl,
      follow_slash]
    exact ⟨follow_dot h.1, h.2⟩
  | case4 r h1 h2 h3 => exact h

/-- A name is not taken off the end of a path. -/
theorem dropIdleEnd_plain (hs : Path.Plain s) (r : List Char) :
    Path.dropIdleEnd (s.toList.reverse ++ r) = s.toList.reverse ++ r := by
  have hslash : '/' ∉ s.toList.reverse := fun h => hs.no_slash (List.mem_reverse.mp h)
  have hdot : s.toList.reverse ≠ ['.'] := by
    intro h
    refine hs.ne_here ?_
    rw [← String.toList_inj, ← List.reverse_reverse s.toList, h]
    rfl
  have hne : s.toList.reverse ≠ [] := by simpa using hs.ne_empty
  generalize s.toList.reverse = n at hslash hdot hne ⊢
  cases n with
  | nil => exact absurd rfl hne
  | cons c n =>
    have hc : c ≠ '/' := fun hc => hslash (by simp [hc])
    have hn : '/' ∉ n := fun hn => hslash (by simp [hn])
    unfold Path.dropIdleEnd
    split
    · next heq => simp_all
    · next heq => simp_all
    · next heq =>
      rw [List.cons_append, List.cons.injEq] at heq
      cases n with
      | nil => exact absurd (by rw [heq.1]) hdot
      | cons a n =>
        rw [List.cons_append, List.cons.injEq] at heq
        exact absurd (by simp [heq.2.1]) hn
    · rfl

theorem dropWhile_plain (hs : Path.Plain s) (r : List Char) :
    (s.toList.reverse ++ r).dropWhile (· != '/') = r.dropWhile (· != '/') := by
  refine List.dropWhile_append_of_pos fun c hc => ?_
  rw [bne_iff_ne]
  rintro rfl
  exact hs.no_slash (List.mem_reverse.mp hc)

/-- The parent of a name in a directory is the directory. -/
theorem enter_parent (hs : Path.Plain s) (h : d.enter p = .ok l) :
    d.enter (p / ⟨s⟩).parent = .ok l := by
  unfold Path.parent
  dsimp only
  rw [Path.text_join hs]
  split
  · next hp =>
    have hnil : p.text.toList = [] := by simpa using hp
    have hd := dropIdleEnd_plain hs []
    have hw := dropWhile_plain hs []
    rw [List.append_nil] at hd hw
    rw [hd, hw]
    obtain ⟨text⟩ := p
    have htext : text = "" := by simpa using hnil
    rw [htext] at h
    simpa [Path.dropIdleEnd] using h
  · next hp =>
    have hne : p.text.toList ≠ [] := by simpa using hp
    split
    · next hlast =>
      obtain ⟨x, hx⟩ := List.getLast?_eq_some_iff.mp hlast
      rw [List.reverse_append, dropIdleEnd_plain hs, dropWhile_plain hs]
      have hdrop : p.text.toList.reverse.dropWhile (· != '/') = p.text.toList.reverse := by
        rw [hx, List.reverse_append]
        rfl
      rw [hdrop]
      refine enter_dropIdleEnd _ ?_
      rw [List.reverse_reverse, String.ofList_toList]
      exact h
    · rw [List.reverse_append, List.reverse_cons, List.append_assoc, dropIdleEnd_plain hs,
        dropWhile_plain hs]
      refine enter_dropIdleEnd ('/' :: p.text.toList.reverse) ?_
      rw [enter_eq_ok] at h ⊢
      rw [List.reverse_cons, List.reverse_reverse, parts_slash, isAbsolute_append hne,
        show Path.parts ⟨String.ofList []⟩ = [""] from rfl, follow_slash, String.ofList_toList]
      exact h

/-! ## Making directories and files -/

theorem onPlace_of_enter {α : Type} (hp : p.text.isEmpty = false) (h : d.enter p = .ok l)
    (f : Place → Except OsError α × Disk) : d.onPlace p f = f l := by
  unfold onPlace
  rw [locate_eq hp, (enter_eq_ok.mp h).1]

/-- A directory that is there cannot be made. -/
theorem perform_makeDirectory_of_enter (hp : p.text.isEmpty = false) (h : d.enter p = .ok l) :
    d.perform (.makeDirectory p) = (.error .alreadyExists, d) := by
  obtain ⟨u, hu⟩ := isDirectoryAt_iff.mp (enter_eq_ok.mp h).2
  show d.onPlace p _ = _
  rw [onPlace_of_enter hp h]
  simp [makeDirectoryAt, hu]

/-- A directory that is there is left as it is. -/
theorem run_ensureDirectory (h : d.enter p = .ok l) : (ensureDirectory p).run d = (.ok (), d) := by
  unfold ensureDirectory makeDirectories
  cases hp : p.text.isEmpty with
  | true => rfl
  | false =>
    obtain ⟨u, hu⟩ := isDirectoryAt_iff.mp (enter_eq_ok.mp h).2
    have hmake : (makeDirectory p).run d = (.error .alreadyExists, d) :=
      perform_makeDirectory_of_enter hp h
    have hcaught : ((makeDirectory p).caught : Attempt OsError _).run d =
        (.ok (.error .alreadyExists), d) := by
      rw [Attempt.caught, Attempt.run_always]
      rw [Attempt.run] at hmake
      rw [hmake]
    have hlook : (look p).run d = (some (.directory u), d) := by
      have hfind : d.perform (.find p) = (.ok (.directory u), d) := by
        show d.onPlace p _ = _
        rw [onPlace_of_enter hp h]
        simp [find, hu]
      show ((d.perform (.find p)).1.toOption, (d.perform (.find p)).2) = _
      rw [hfind]
      rfl
    have hsettle : (settleDirectory p .alreadyExists).run d = (.ok (), d) := by
      have hlook' : (Attempt.always (look p) : Attempt OsError _).run d =
          (.ok (some (.directory u)), d) := by
        rw [Attempt.run_always, hlook]
      show (Attempt.always (look p) >>= _ : Attempt OsError _).run d = _
      rw [Attempt.run_bind_ok hlook']
      rfl
    rw [if_neg (by simp), Attempt.run_bind_ok hcaught]
    exact hsettle

/-- A file that is not there is made. -/
theorem append_missing (hs : Path.Plain s) (ht : Path.Plain t) (hst : s ≠ t) (hl : d.enter p = .ok l)
    (h : d.view (p / ⟨t⟩) = .error .notFound) (bytes : ByteArray) :
    ∃ e, d.perform (.append (p / ⟨t⟩) bytes) = (.ok (), e) ∧ Spares (p / ⟨s⟩) d e ∧
      ∃ u, e.view (p / ⟨t⟩) = .ok (.file bytes u) := by
  have hn : d.node? (l ++ [t]) = none := by
    rw [view_join ht, hl] at h
    have h' : d.find (l ++ [t]) = .error .notFound := h
    unfold find at h'
    split at h'
    · next hn => exact hn
    · cases h'
  have hdir : d.isDirectoryAt (l ++ [t]) = false := by simp [isDirectoryAt, hn]
  refine ⟨d.put (l ++ [t]) (.file bytes d.clock), ?_, .put_file hs hst hl hdir _ _, _,
    view_put_file ht hl hdir _ _⟩
  show d.onPlace _ _ = _
  rw [onPlace_join ht, hl]
  simp [appendFile, hn]

end Disk

/-! ## Opening -/

theorem CacheFiles.run_ensure {α : Type} [Entity α] (hs : Path.Plain s) (ht : Path.Plain t)
    (hst : s ≠ t) (hl : d.enter p = .ok l) (hsnapshot : d.view (p / ⟨s⟩) = .error .notFound)
    (hwork : d.view (p / ⟨t⟩) = .error .notFound) :
    ∃ e, (CacheFiles.ensure ⟨p / ⟨s⟩, p / ⟨t⟩⟩).run d = (.ok (), e) ∧
      CacheFiles.Holds ⟨p / ⟨s⟩, p / ⟨t⟩⟩ e ([] : List α) [] := by
  obtain ⟨m, hm, hsame, u, hu⟩ := append_missing ht hs hst.symm hl hsnapshot .empty
  have hwork' : m.view (p / ⟨t⟩) = .error .notFound := hsame.view.trans hwork
  obtain ⟨e, he, hsame', v, hv⟩ :=
    append_missing hs ht hst (hsame.directories.enter_ok hl) hwork' .empty
  have hdir : (Disk.ensureDirectory (p / ⟨s⟩).parent).run d = (.ok (), d) :=
    run_ensureDirectory (enter_parent hs hl)
  have hm' : (Disk.appendBytes (p / ⟨s⟩) .empty).run d = (.ok (), m) := hm
  have he' : (Disk.appendBytes (p / ⟨t⟩) .empty).run m = (.ok (), e) := he
  refine ⟨e, ?_, ⟨u, hsame'.view.trans hu⟩, v, hv⟩
  rw [CacheFiles.ensure, Attempt.run_bind_ok (Attempt.run_because_ok hdir),
    Attempt.run_bind_ok (Attempt.run_because_ok hm')]
  exact Attempt.run_because_ok he'

namespace EntityCache

variable {α : Type} [Entity α] [PlainKind α] {dir : Path} {policy : CachePolicy}

/-- In a directory without its files a cache opens with two empty logs. -/
theorem run_openIn (henter : d.enter dir = .ok l)
    (hsnapshot : d.view (inDirectory α dir policy).files.snapshot = .error .notFound)
    (hwork : d.view (inDirectory α dir policy).files.work = .error .notFound) :
    ∃ e, (openIn α dir policy).run d = (.ok (inDirectory α dir policy), e) ∧
      (inDirectory α dir policy).files.Holds e ([] : List α) [] := by
  obtain ⟨hs, ht, hst⟩ := CacheFiles.names_ofKind (PlainKind.no_slash (α := α))
  obtain ⟨e, he, hholds⟩ := CacheFiles.run_ensure (α := α) hs ht hst henter hsnapshot hwork
  have he' : (CacheFiles.ofKind dir (Entity.kind α)).ensure.run d = (.ok (), e) := he
  refine ⟨e, ?_, hholds⟩
  rw [openIn, Attempt.run_bind_ok he']
  rfl

/-- On an empty disk it does too. -/
theorem run_openIn_empty (policy : CachePolicy) (now : Instant) :
    ∃ e, (openIn α ⟨""⟩ policy).run (.empty now) = (.ok (inDirectory α ⟨""⟩ policy), e) ∧
      (inDirectory α ⟨""⟩ policy).files.Holds e ([] : List α) [] := by
  obtain ⟨hs, ht, -⟩ := CacheFiles.names_ofKind (PlainKind.no_slash (α := α))
  exact run_openIn (l := []) rfl (view_join hs (.empty now) ⟨""⟩) (view_join ht (.empty now) ⟨""⟩)

end EntityCache

end SensorCache
