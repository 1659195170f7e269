import SensorCache.Proofs.Source.Exports

/-!
# Streamed exports

What a hearer is told when the offerings of an export are streamed to it (`Heard`), compared with
what a fetch returns. The file of offerings is read twice for a stream, to count its lines and to
deliver what they hold, and once for a fetch; blank lines are passed over each time. Where all lines
are text, the stream ends as the fetch does, unless the hearer refuses an offering before
(`streams_as_fetched`). A line that is no text is met when the lines are counted, so it ends the
stream before anything is told, whatever the lines before it hold.
-/

namespace SensorCache

open Disk

variable {α β ρ σ τ ε : Type} {d e : Disk}

/-! ## Hearers that write down -/

/-- What a hearer is told. -/
inductive Heard (α : Type) where
  | count (n : Nat)
  | item (a : α)

/-- How many items were told. -/
def Heard.items : List (Heard α) → Nat
  | [] => 0
  | .count _ :: l => items l
  | .item _ :: l => items l + 1

theorem Heard.items_append (l m : List (Heard α)) : items (l ++ m) = items l + items m := by
  induction l with
  | nil => exact (Nat.zero_add _).symm
  | cons x l ih =>
    cases x with
    | count n => exact ih
    | item a =>
      show items (l ++ m) + 1 = items l + 1 + items m
      omega

theorem Heard.items_snoc (l : List (Heard α)) (a : α) (k : Nat) :
    items (l ++ [.item a]) + k = items l + (k + 1) := by
  rw [items_append, Nat.add_assoc, Nat.add_comm k]
  rfl

/-- A hearer that writes down what it is told, and takes the item after `k` others if `takes k`. -/
def Receiver.recording (takes : Nat → Bool) : Receiver α (List (Heard α)) where
  interrupt l := l
  announce n l := l ++ [.count n]
  accept a l := pure (takes (Heard.items l), l ++ [.item a])

namespace SourceCall

variable {takes : Nat → Bool}

theorem run_deliver_recording (a : α) (l : List (Heard α)) (d : Disk) :
    ((deliver a).run (.recording takes) l).run d =
      ((.returned (if takes (Heard.items l) then .ok () else .error .cancelled), l ++ [.item a]),
        d) := by
  have haccept : ((Receiver.recording takes).accept a l).run d =
      ((takes (Heard.items l), l ++ [.item a]), d) := rfl
  refine (run_delivers haccept).trans ?_
  split <;> rfl

theorem run_deliver_taken {l : List (Heard α)} (h : takes (Heard.items l) = true) (a : α)
    (d : Disk) :
    ((deliver a).run (.recording takes) l).run d =
      ((.returned (.ok ()), l ++ [.item a]), d) := by
  rw [run_deliver_recording, if_pos h]

/-- A hearer that takes all items is told all. -/
theorem run_deliverEach_taken : ∀ (es : List α) (l : List (Heard α)),
    (∀ k < es.length, takes (Heard.items l + k) = true) →
    ((deliverEach es).run (.recording takes) l).run d =
      ((.returned (.ok ()), l ++ es.map .item), d)
  | [], l, _ => by
    rw [List.map_nil, List.append_nil]
    rfl
  | a :: es, l, h => by
    refine (run_bind_ok (run_deliver_taken (h 0 (Nat.zero_lt_succ _)) a d)).trans ?_
    have hrest := run_deliverEach_taken es (l ++ [.item a]) fun k hk => by
      rw [Heard.items_snoc]
      exact h (k + 1) (Nat.succ_lt_succ hk)
    rw [hrest, List.map_cons, List.append_assoc, List.singleton_append]

/-- A hearer that refuses an item is told no more than that. -/
theorem run_deliverEach_untaken : ∀ (es : List α) (l : List (Heard α)) (j : Nat), j < es.length →
    (∀ k < j, takes (Heard.items l + k) = true) → takes (Heard.items l + j) = false →
    ((deliverEach es).run (.recording takes) l).run d =
      ((.returned (.error .cancelled), l ++ (es.take (j + 1)).map .item), d)
  | a :: es, l, 0, _, _, hj => by
    have hrefused : ¬takes (Heard.items l) = true := Bool.eq_false_iff.mp hj
    refine run_bind_error ?_
    rw [run_deliver_recording, if_neg hrefused]
    rfl
  | a :: es, l, j + 1, hlt, h, hj => by
    refine (run_bind_ok (run_deliver_taken (h 0 (Nat.zero_lt_succ _)) a d)).trans ?_
    have hrest := run_deliverEach_untaken es (l ++ [.item a]) j (Nat.lt_of_succ_lt_succ hlt)
      (fun k hk => by
        rw [Heard.items_snoc]
        exact h (k + 1) (Nat.succ_lt_succ hk))
      (by rwa [Heard.items_snoc])
    rw [hrest, List.take_succ_cons, List.map_cons, List.append_assoc, List.singleton_append]

/-! ## Calls without indices -/

/-- A call that delivers something else for each entity. -/
def relabel (f : α → β) : SourceCall α ρ → SourceCall β ρ
  | .returns r => .returns r
  | .crashes => .crashes
  | .hangs => .hangs
  | .interrupts next => .interrupts (next.relabel f)
  | .performs o next => .performs o fun x => (next x).relabel f
  | .announces n next => .announces n (next.relabel f)
  | .delivers a next => .delivers (f a) fun b => (next b).relabel f

theorem relabel_bind (f : α → β) (c : SourceCall α ρ) (g : ρ → SourceCall α σ) :
    (c >>= g).relabel f = c.relabel f >>= fun r => (g r).relabel f := by
  induction c with
  | returns r => cases r <;> rfl
  | crashes | hangs => rfl
  | interrupts next ih => exact congrArg interrupts ih
  | performs o next ih => exact congrArg (performs o) (funext ih)
  | announces n next ih => exact congrArg (announces n) ih
  | delivers a next ih => exact congrArg (delivers (f a)) (funext ih)

theorem relabel_ofRoutine (f : α → β) (r : Routine ρ) :
    (ofRoutine r : SourceCall α ρ).relabel f = ofRoutine r := by
  induction r with
  | done a => rfl
  | step o next ih => exact congrArg (performs o) (funext ih)

theorem relabel_ofAttempt (f : α → β) (cause : ε → SourceError) (r : Attempt ε ρ) :
    (ofAttempt cause r : SourceCall α ρ).relabel f = ofAttempt cause r := by
  rw [ofAttempt, relabel_bind, relabel_ofRoutine]
  refine congrArg (ofRoutine r.outcome >>= ·) (funext fun x => ?_)
  cases x <;> rfl

theorem relabel_deliver (f : α → β) (a : α) : (deliver a).relabel f = deliver (f a) := by
  refine congrArg (delivers (f a)) (funext fun b => ?_)
  cases b <;> rfl

end SourceCall

namespace ExportDirectory

variable {x : ExportDirectory} {p : Path} {n i : Nat} {ls : List (List UInt8)} {os : List Offering}

theorem relabel_readOfferings (f : α → β) (x : ExportDirectory) :
    x.readOfferings.relabel f = x.readOfferings := by
  simp only [readOfferings, SourceCall.relabel_bind, SourceCall.relabel_ofAttempt]
  rfl

theorem relabel_eachIndexed (p : Path) : ∀ (n i : Nat) (ls : List (List UInt8)),
    (eachIndexed p n i ls).relabel Prod.fst = eachOffering p .deliver n ls
  | _, _, [] => rfl
  | n, i, l :: ls => by
    unfold eachIndexed eachOffering
    split
    · rfl
    · exact relabel_eachIndexed p (n + 1) i ls
    · next o _ =>
      rw [SourceCall.relabel_bind, SourceCall.relabel_deliver]
      exact congrArg (SourceCall.deliver o >>= ·)
        (funext fun _ => relabel_eachIndexed p (n + 1) (i + 1) ls)

/-- Apart from the indices, it is the stream of the source. -/
theorem relabel_streamIndexed (x : ExportDirectory) :
    x.streamIndexed.relabel Prod.fst = x.offerings.stream := by
  show x.streamIndexed.relabel Prod.fst = x.streamOfferings
  unfold streamIndexed streamOfferings
  simp only [SourceCall.relabel_bind, relabel_readOfferings, relabel_eachIndexed]
  rfl

/-! ## Lines -/

/-- The offerings of the first lines are delivered with their indices, and then it goes on with the
other lines. -/
theorem eachIndexed_append {before : List (List UInt8)} (h : offeringsOf p n before = .ok os)
    (i : Nat) (after : List (List UInt8)) :
    eachIndexed p n i (before ++ after) =
      SourceCall.deliverEach (os.zipIdx i) >>= fun _ =>
        eachIndexed p (n + before.length) (i + os.length) after := by
  induction before generalizing n i os with
  | nil =>
    cases h
    rfl
  | cons l before ih =>
    obtain ⟨o, os', ho, hr, rfl⟩ := offeringsOf_cons h
    have hn : n + (l :: before).length = n + 1 + before.length := by
      rw [List.length_cons]
      omega
    rw [List.cons_append, eachIndexed, ho, hn]
    cases o with
    | none => exact ih hr i
    | some o =>
      have hi : i + ((some o).toList ++ os').length = i + 1 + os'.length := by
        rw [List.length_append, ← Nat.add_assoc]
        rfl
      dsimp only
      rw [ih hr (i + 1), hi]
      exact (SourceCall.bind_assoc (SourceCall.deliver (o, i)) _ _).symm

/-- Lines of which one is no offering begin with lines that are blank or offerings. -/
theorem offeringsOf_error {y : SourceError} (h : offeringsOf p n ls = .error y) :
    ∃ before l after os, ls = before ++ l :: after ∧ offeringsOf p n before = .ok os ∧
      offeringOf p (n + before.length) l = .error y := by
  induction ls generalizing n with
  | nil => cases h
  | cons l ls ih =>
    unfold offeringsOf at h
    cases ho : offeringOf p n l with
    | error z =>
      rw [ho] at h
      cases h
      exact ⟨[], l, ls, [], rfl, rfl, ho⟩
    | ok o =>
      rw [ho] at h
      cases hr : offeringsOf p (n + 1) ls with
      | ok os =>
        rw [hr] at h
        cases h
      | error z =>
        rw [hr] at h
        cases h
        obtain ⟨before, k, after, os, rfl, hos, hk⟩ := ih hr
        refine ⟨l :: before, k, after, o.toList ++ os, rfl, ?_, ?_⟩
        · rw [offeringsOf, ho, hos]
        · rwa [List.length_cons, Nat.add_right_comm, ← Nat.add_assoc] at *

/-- The bytes of a line are text. -/
def IsText (l : List UInt8) : Prop := (String.fromUTF8? ⟨l.toArray⟩).isSome = true

instance (l : List UInt8) : Decidable (IsText l) := inferInstanceAs (Decidable (_ = true))

theorem lineText_of_isText {l : List UInt8} (h : IsText l) : ∃ s, lineText p l = .ok s := by
  obtain ⟨s, hs⟩ := Option.isSome_iff_exists.mp h
  exact ⟨s.toList, by rw [lineText, hs]⟩

theorem lineText_of_not_isText {l : List UInt8} (h : ¬IsText l) :
    lineText p l = .error (failure "read" p .notText) := by
  rw [IsText, Bool.not_eq_true, Option.isSome_eq_false_iff, Option.isNone_iff_eq_none] at h
  rw [lineText, h]

theorem countLines_of_isText (h : ∀ l ∈ ls, IsText l) : ∃ k, countLines p ls = .ok k := by
  induction ls with
  | nil => exact ⟨0, rfl⟩
  | cons l ls ih =>
    obtain ⟨k, hk⟩ := ih fun m hm => h m (List.mem_cons_of_mem l hm)
    obtain ⟨s, hs⟩ := lineText_of_isText (p := p) (h l List.mem_cons_self)
    exact ⟨_, by rw [countLines, hs, hk]⟩

theorem countLines_of_not_isText (h : ∃ l ∈ ls, ¬IsText l) :
    countLines p ls = .error (failure "read" p .notText) := by
  induction ls with
  | nil =>
    obtain ⟨l, hl, -⟩ := h
    cases hl
  | cons l ls ih =>
    rw [countLines]
    by_cases hl : IsText l
    · obtain ⟨s, hs⟩ := lineText_of_isText (p := p) hl
      obtain ⟨m, hm, hbad⟩ := h
      have hmem : m ∈ ls := (List.mem_cons.mp hm).resolve_left fun heq => hbad (heq ▸ hl)
      rw [hs, ih ⟨m, hmem, hbad⟩]
    · rw [lineText_of_not_isText hl]

/-! ## Streams -/

/-- Streamed to a hearer that takes items as `takes` says, the call ends with `r`, and `told` is
what the hearer is told. -/
def Streams (x : ExportDirectory) (d : Disk) (takes : Nat → Bool) (r : Except SourceError Unit)
    (told : List (Heard (Offering × Nat))) : Prop :=
  (x.streamIndexed.run (.recording takes) []).run d = ((.returned r, told), d)

/-- The offerings with their indices, after a count. -/
def announced (count : Nat) (os : List Offering) : List (Heard (Offering × Nat)) :=
  .count count :: os.zipIdx.map .item

theorem Streams.unique {takes : Nat → Bool} {r q : Except SourceError Unit}
    {told heard : List (Heard (Offering × Nat))} (h : x.Streams d takes r told)
    (k : x.Streams d takes q heard) : r = q ∧ told = heard := by
  cases h.symm.trans k
  exact ⟨rfl, rfl⟩

section File

variable {b : ByteArray} (hb : (d.perform (.read (x.path / ⟨offeringsFile⟩))).1 = .ok b)
include hb

theorem run_readOfferings_of_read {α τ : Type} (h : Receiver α τ) (t : τ) :
    (x.readOfferings.run h t).run d = ((.returned (.ok b.data.toList), t), d) := by
  obtain ⟨r, hread, ⟨b', hb', rfl⟩ | ⟨hbad, -⟩⟩ := x.run_readOfferings d
  · cases hb.symm.trans hb'
    exact hread h t
  · exact absurd hb (hbad b)

theorem fetches_of_read : x.offerings.fetch.Fetches d
    (offeringsOf (x.path / ⟨offeringsFile⟩) 1 (Text.byteLines b.data.toList)) d := fun j =>
  SourceCall.run_bind_ok (run_readOfferings_of_read hb _ j)

/-- A line that is no text ends the stream before anything is told. -/
theorem streams_of_not_isText (h : ∃ l ∈ Text.byteLines b.data.toList, ¬IsText l)
    (takes : Nat → Bool) :
    x.Streams d takes (.error (failure "read" (x.path / ⟨offeringsFile⟩) .notText)) [] := by
  refine (SourceCall.run_bind_ok (run_readOfferings_of_read hb _ _)).trans ?_
  rw [countLines_of_not_isText h]
  rfl

/-- The lines are counted, and the first of them are delivered up to the other ones. -/
theorem run_streamIndexed {k : Nat} {before after : List (List UInt8)}
    (hk : countLines (x.path / ⟨offeringsFile⟩) (Text.byteLines b.data.toList) = .ok k)
    (hlines : Text.byteLines b.data.toList = before ++ after)
    (hos : offeringsOf (x.path / ⟨offeringsFile⟩) 1 before = .ok os) (takes : Nat → Bool) :
    (x.streamIndexed.run (.recording takes) []).run d =
      ((SourceCall.deliverEach os.zipIdx >>= fun _ =>
        eachIndexed (x.path / ⟨offeringsFile⟩) (1 + before.length) (0 + os.length) after).run
          (.recording takes) [.count k]).run d := by
  refine (SourceCall.run_bind_ok (run_readOfferings_of_read hb _ _)).trans ?_
  rw [hk]
  refine (SourceCall.run_bind_ok (run_readOfferings_of_read hb _ [Heard.count k])).trans ?_
  rw [hlines, eachIndexed_append hos]

theorem streams_ok (hos : offeringsOf (x.path / ⟨offeringsFile⟩) 1 (Text.byteLines b.data.toList) =
    .ok os) : x.Streams d (fun _ => true) (.ok ()) (announced os.length os) := by
  refine (run_streamIndexed hb (countLines_eq_length hos) (List.append_nil _).symm hos _).trans ?_
  exact SourceCall.run_bind_ok (SourceCall.run_deliverEach_taken _ _ fun _ _ => rfl)

theorem streams_error {k : Nat} {before after : List (List UInt8)} {l : List UInt8}
    {y : SourceError}
    (hk : countLines (x.path / ⟨offeringsFile⟩) (Text.byteLines b.data.toList) = .ok k)
    (hlines : Text.byteLines b.data.toList = before ++ l :: after)
    (hos : offeringsOf (x.path / ⟨offeringsFile⟩) 1 before = .ok os)
    (hl : offeringOf (x.path / ⟨offeringsFile⟩) (1 + before.length) l = .error y) :
    x.Streams d (fun _ => true) (.error y) (announced k os) := by
  refine (run_streamIndexed hb hk hlines hos _).trans ?_
  refine (SourceCall.run_bind_ok (SourceCall.run_deliverEach_taken _ _ fun _ _ => rfl)).trans ?_
  rw [eachIndexed, hl]
  rfl

/-- A hearer that refuses one of the first offerings is told no others. -/
theorem streams_cancelled {k j : Nat} {before after : List (List UInt8)} {takes : Nat → Bool}
    (hk : countLines (x.path / ⟨offeringsFile⟩) (Text.byteLines b.data.toList) = .ok k)
    (hlines : Text.byteLines b.data.toList = before ++ after)
    (hos : offeringsOf (x.path / ⟨offeringsFile⟩) 1 before = .ok os) (hj : j < os.length)
    (htaken : ∀ i < j, takes i = true) (hrefused : takes j = false) :
    x.Streams d takes (.error .cancelled) (announced k (os.take (j + 1))) := by
  refine (run_streamIndexed hb hk hlines hos _).trans ?_
  have hitems : ∀ i, Heard.items [(.count k : Heard (Offering × Nat))] + i = i := Nat.zero_add
  have hdeliver :
      ((SourceCall.deliverEach os.zipIdx).run (.recording takes) [.count k]).run d = _ :=
    SourceCall.run_deliverEach_untaken _ _ j (by rwa [List.length_zipIdx])
      (fun i hi => by
        rw [hitems]
        exact htaken i hi)
      (by rwa [hitems])
  refine (SourceCall.run_bind_error hdeliver).trans ?_
  have htake : os.zipIdx.take (j + 1) = (os.take (j + 1)).zipIdx := by
    have hsplit : (os.take (j + 1) ++ os.drop (j + 1)).zipIdx = _ := List.zipIdx_append
    rw [List.take_append_drop] at hsplit
    rw [hsplit, List.take_left' (by rw [List.length_zipIdx, List.length_take]; omega)]
  rw [htake]
  rfl

end File

theorem fetches_unique {r q : Except SourceError (List Offering)}
    (h : x.offerings.fetch.Fetches d r d) (k : x.offerings.fetch.Fetches d q d) : r = q := by
  cases (h (.new 0 ⟨0⟩)).symm.trans (k (.new 0 ⟨0⟩))
  rfl

/-- Nothing is streamed of a file that cannot be read, and nothing fetched. -/
theorem streams_of_unread (h : ∀ b, (d.perform (.read (x.path / ⟨offeringsFile⟩))).1 ≠ .ok b) :
    ∃ y, x.offerings.fetch.Fetches d (.error y) d ∧
      ∀ takes, x.Streams d takes (.error y) [] := by
  obtain ⟨r, hread, ⟨b, hb, -⟩ | ⟨-, m, rfl⟩⟩ := x.run_readOfferings d
  · exact absurd hb (h b)
  · exact ⟨_, fun j => SourceCall.run_bind_error (hread _ j),
      fun takes => SourceCall.run_bind_error (hread _ _)⟩

/-- To a hearer that refuses nothing a stream goes well exactly if the fetch does, and then it tells
of what is fetched. -/
theorem streams_ok_iff (x : ExportDirectory) (d : Disk) (told : List (Heard (Offering × Nat))) :
    x.Streams d (fun _ => true) (.ok ()) told ↔
      ∃ os, x.offerings.fetch.Fetches d (.ok os) d ∧ told = announced os.length os := by
  by_cases hfile : ∃ b, (d.perform (.read (x.path / ⟨offeringsFile⟩))).1 = .ok b
  · obtain ⟨b, hb⟩ := hfile
    have hfetch := fetches_of_read hb
    constructor
    · intro h
      cases hos : offeringsOf (x.path / ⟨offeringsFile⟩) 1 (Text.byteLines b.data.toList) with
      | ok os =>
        rw [hos] at hfetch
        exact ⟨os, hfetch, (h.unique (streams_ok hb hos)).2⟩
      | error y =>
        by_cases htext : ∃ l ∈ Text.byteLines b.data.toList, ¬IsText l
        · cases (h.unique (streams_of_not_isText hb htext _)).1
        · obtain ⟨before, l, after, os, hlines, hos', hl⟩ := offeringsOf_error hos
          obtain ⟨k, hk⟩ := countLines_of_isText (p := x.path / ⟨offeringsFile⟩) fun l hl =>
            Decidable.not_not.mp fun hbad => htext ⟨l, hl, hbad⟩
          cases (h.unique (streams_error hb hk hlines hos' hl)).1
    · rintro ⟨os, hos, rfl⟩
      exact streams_ok hb (fetches_unique hfetch hos)
  · obtain ⟨y, hfetch, hstream⟩ := streams_of_unread fun b hb => hfile ⟨b, hb⟩
    constructor
    · intro h
      cases (h.unique (hstream _)).1
    · rintro ⟨os, hos, -⟩
      cases fetches_unique hfetch hos

/-- A stream of offerings against their fetch, whatever the file of offerings holds. Apart from the
indices it is the stream of the source. To a hearer that refuses nothing it goes well exactly if the
fetch does, and tells the count, and then each offering that is fetched with its index. If all lines
are text, it fails as the fetch does, after the offerings of the lines before, and a hearer that
refuses one of the first offerings hears no more. A line that is no text makes it fail before
anything is told. -/
theorem streams_as_fetched (x : ExportDirectory) (d : Disk) :
    x.streamIndexed.relabel Prod.fst = x.offerings.stream ∧
      (∀ told, x.Streams d (fun _ => true) (.ok ()) told ↔
        ∃ os, x.offerings.fetch.Fetches d (.ok os) d ∧ told = announced os.length os) ∧
      ∀ b, (d.perform (.read (x.path / ⟨offeringsFile⟩))).1 = .ok b →
        ((∀ l ∈ Text.byteLines b.data.toList, IsText l) →
          (∀ y, x.offerings.fetch.Fetches d (.error y) d → ∃ before l after os count,
            Text.byteLines b.data.toList = before ++ l :: after ∧
              offeringsOf (x.path / ⟨offeringsFile⟩) 1 before = .ok os ∧
              offeringOf (x.path / ⟨offeringsFile⟩) (1 + before.length) l = .error y ∧
              x.Streams d (fun _ => true) (.error y) (announced count os)) ∧
          ∀ takes j before after os, Text.byteLines b.data.toList = before ++ after →
            offeringsOf (x.path / ⟨offeringsFile⟩) 1 before = .ok os → j < os.length →
            (∀ i < j, takes i = true) → takes j = false → ∃ count,
              x.Streams d takes (.error .cancelled) (announced count (os.take (j + 1)))) ∧
        ((∃ l ∈ Text.byteLines b.data.toList, ¬IsText l) → ∀ takes,
          x.Streams d takes (.error (failure "read" (x.path / ⟨offeringsFile⟩) .notText)) []) := by
  refine ⟨relabel_streamIndexed x, streams_ok_iff x d, fun b hb => ⟨fun htext => ?_, ?_⟩⟩
  · obtain ⟨k, hk⟩ := countLines_of_isText (p := x.path / ⟨offeringsFile⟩) htext
    refine ⟨fun y hy => ?_, fun takes j before after os hlines hos hj htaken hrefused => ?_⟩
    · obtain ⟨before, l, after, os, hlines, hos, hl⟩ :=
        offeringsOf_error (fetches_unique (fetches_of_read hb) hy)
      exact ⟨before, l, after, os, k, hlines, hos, hl, streams_error hb hk hlines hos hl⟩
    · exact ⟨k, streams_cancelled hb hk hlines hos hj htaken hrefused⟩
  · exact streams_of_not_isText hb

def sample : ExportDirectory := ⟨⟨"x"⟩⟩

/-- The export's directory, with a file of offerings. -/
def exportOf (offerings : ByteArray) : Disk :=
  ((Disk.empty ⟨0⟩).put ["x"] (.directory ⟨0⟩)).put ["x", offeringsFile] (.file offerings ⟨0⟩)

theorem read_exportOf (b : ByteArray) :
    ((exportOf b).perform (.read (sample.path / ⟨offeringsFile⟩))).1 = .ok b := rfl

/-- Two offerings with a blank line between them, and a line behind them that is none. -/
def mixed : ByteArray := "[\"a\"]\n\r\n[\"b\"]\nnone\n".toUTF8

/-- An offering, and a line behind it that is no text. -/
def broken : ByteArray := "[\"a\"]\n".toUTF8 ++ ⟨#[0xff, 0x0a]⟩

def named (identifier : String) : Offering := ⟨identifier, none, [], .empty, [], none, none⟩

/-- Streams of both files, to hearers that refuse nothing, and to one that refuses the second
offering. -/
theorem streams_as_fetched_samples :
    (∃ os count, sample.Streams (exportOf mixed) (fun _ => true)
      (.error (.backend "x/offerings.jsonl:4: invalid offering")) (announced count os)) ∧
    (∃ count, sample.Streams (exportOf mixed) (fun i => i == 0) (.error .cancelled)
      (announced count [named "a", named "b"])) ∧
    sample.Streams (exportOf broken) (fun _ => true)
      (.error (failure "read" ⟨"x/offerings.jsonl"⟩ .notText)) [] := by
  have htext : ∀ l ∈ Text.byteLines mixed.data.toList, IsText l := by decide +kernel
  obtain ⟨herror, hcancel⟩ :=
    ((streams_as_fetched sample (exportOf mixed)).2.2 mixed (read_exportOf mixed)).1 htext
  have hinvalid : offeringsOf (sample.path / ⟨offeringsFile⟩) 1
      (Text.byteLines mixed.data.toList) =
        .error (.backend "x/offerings.jsonl:4: invalid offering") := by decide +kernel
  have hfetch := fetches_of_read (read_exportOf mixed)
  rw [hinvalid] at hfetch
  refine ⟨?_, ?_, ?_⟩
  · obtain ⟨before, l, after, os, count, -, -, -, hstream⟩ := herror _ hfetch
    exact ⟨os, count, hstream⟩
  · exact hcancel (fun i => i == 0) 1 ((Text.byteLines mixed.data.toList).take 3)
      ((Text.byteLines mixed.data.toList).drop 3) [named "a", named "b"]
      (List.take_append_drop 3 _).symm (by decide +kernel) (by decide) (by decide) (by decide)
  · exact ((streams_as_fetched sample (exportOf broken)).2.2 broken (read_exportOf broken)).2
      (by decide +kernel) _

/-- A refusal does not always end a stream: of the broken file the first line is read as an
offering, but a hearer that would refuse it is not asked, since the line behind it is no text. -/
theorem refusal_not_reached :
    ¬∀ (x : ExportDirectory) (d : Disk) (b : ByteArray),
      (d.perform (.read (x.path / ⟨offeringsFile⟩))).1 = .ok b →
      ∀ (takes : Nat → Bool) (j : Nat) (before after : List (List UInt8)) (os : List Offering),
        Text.byteLines b.data.toList = before ++ after →
        offeringsOf (x.path / ⟨offeringsFile⟩) 1 before = .ok os → j < os.length →
        (∀ i < j, takes i = true) → takes j = false → ∃ count,
          x.Streams d takes (.error .cancelled) (announced count (os.take (j + 1))) := by
  intro h
  have hos : offeringsOf (sample.path / ⟨offeringsFile⟩) 1
      ((Text.byteLines broken.data.toList).take 1) = .ok [named "a"] := by decide +kernel
  obtain ⟨count, hcancelled⟩ := h sample (exportOf broken) broken (read_exportOf broken)
    (fun _ => false) 0 _ _ [named "a"] (List.take_append_drop 1 _).symm hos (by decide)
    (fun _ hi => nomatch hi) rfl
  have hfails := streams_of_not_isText (read_exportOf broken) (by decide +kernel) fun _ => false
  cases (hcancelled.unique hfails).1

end ExportDirectory

end SensorCache
