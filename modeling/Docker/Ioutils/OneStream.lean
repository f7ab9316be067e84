import Docker.Ioutils.MultiReader
import Docker.Lib.Fallible

/-!
# A `MultiReadSeeker` as one stream

The reader stands at a position if the readers before the current one are at their ends and those
after it at their starts. `Seek` to a position of the content and `Read` keep this.

Two kinds of calls do not fit. `Read` takes as many bytes from the readers as the slice has
capacity, and returns as many as it has length (`read_consumes`, `read_skips`). And a relative
`Seek` of a reader in use moves none of the readers (`read_after_seekCur`, `seekCur_lost`).
-/

namespace Docker.Ioutils.MultiReader

open Option

open Stream (Cursor)
open Transition (answers answers_eq)

def contentOf (readers : List Cursor) : Bytes := (readers.map Cursor.content).flatten

structure Parted (before : List Cursor) (cur : Cursor) (after : List Cursor) : Prop where
  before_end : ∀ c ∈ before, c.offset = c.size
  after_start : ∀ c ∈ after, c.offset = 0
  inside : cur.offset ≤ cur.size ∨ after = []

namespace MultiReadSeeker

def At (r : MultiReadSeeker) (p : Nat) : Prop :=
  ∃ before cur after, r.readers = before ++ cur :: after ∧ Parted before cur after ∧
    r.pos.getD ⟨0, 0⟩ = ⟨before.length, cur.offset⟩ ∧ p = (contentOf before).length + cur.offset

end MultiReadSeeker

open MultiReadSeeker

/-- The calls that stay in a content of this size: no relative seek but the one that asks for the
position, and no slice with more capacity than length. -/
def Op.InRange (total : Nat) : Op → Prop
  | .seek offset .seekSet => 0 ≤ offset ∧ offset ≤ total
  | .seek offset .seekEnd => 0 ≤ total + offset ∧ total + offset ≤ total
  | .seek offset .seekCur => offset = 0
  | .seek _ (.invalid _) => False
  | .read b => b.len = b.cap

instance (total : Nat) : DecidablePred (Op.InRange total)
  | .seek _ .seekSet => inferInstanceAs (Decidable (_ ∧ _))
  | .seek _ .seekEnd => inferInstanceAs (Decidable (_ ∧ _))
  | .seek _ .seekCur => inferInstanceAs (Decidable (_ = _))
  | .seek _ (.invalid _) => inferInstanceAs (Decidable False)
  | .read _ => inferInstanceAs (Decidable (_ = _))

section Lists
variable {cur rdr : Cursor}

@[simp] theorem contentOf_nil : contentOf [] = [] := rfl

@[simp] theorem contentOf_cons : contentOf (cur :: l) = cur.content ++ contentOf l := rfl

@[simp] theorem contentOf_append : contentOf (before ++ l) = contentOf before ++ contentOf l := by
  rw [contentOf, List.map_append, List.flatten_append]
  rfl

theorem contentOf_map (h : ∀ c, (f c).content = c.content) : contentOf (l.map f) = contentOf l := by
  rw [contentOf, List.map_map, contentOf]
  exact congrArg _ (List.map_congr_left fun c _ => h c)

theorem rest_of_start (h : cur.offset = 0) : cur.rest = cur.content := by
  rw [Cursor.rest, h, List.drop_zero]

theorem Parted.drop_contentOf (h : Parted before cur after) :
    (contentOf (before ++ cur :: after)).drop ((contentOf before).length + cur.offset) = cur.rest ++
      contentOf after := by
  rw [contentOf_append, List.drop_length_add_append, contentOf_cons]
  obtain hle | rfl := h.inside
  · exact List.drop_append_of_le_length hle
  · rw [contentOf_nil, List.append_nil, List.append_nil, Cursor.rest]

/-! ## The loops -/

theorem getReadSeekerSize_eq (rdr : Cursor) :
    getReadSeekerSize rdr = .ok ((rdr.size : Int), rdr) := by
  rw [getReadSeekerSize, Cursor.seek_cur]
  rfl

theorem curOffsetFrom_eq {pos : Pos} (hidx : pos.idx = i + before.length) :
    curOffsetFrom pos i (before ++ cur :: after) =
      .ok (((contentOf before).length : Int) + pos.offset, before ++ cur :: after) := by
  induction before generalizing i with
  | nil =>
    rw [List.nil_append, curOffsetFrom, posIdx, if_pos (by simpa using hidx.symm), contentOf_nil]
    simp [pure, Except.pure]
  | cons rdr before ih =>
    have hne : ¬ posIdx (some i) = pos.idx := by
      rw [hidx, posIdx, List.length_cons]
      omega
    have hrest := ih (i := i + 1) (by rw [hidx, List.length_cons]; omega)
    rw [List.cons_append, curOffsetFrom, if_neg hne, getReadSeekerSize_eq]
    simp only [bind, Except.bind, hrest, pure, Except.pure, contentOf_cons, List.length_append,
      Int.natCast_add]
    rw [Int.add_assoc]
    rfl

theorem moved_of_neg (rdr : Cursor) (h : offset < 0) : rdr.moved offset .seekSet = rdr := by
  simp [Cursor.moved, Cursor.seek, Cursor.target, bind, Except.bind, h, throw, throwThe,
    MonadExceptOf.throw]

/-- `Seek` leaves the readers parted; to a position in their content, it parts them there. -/
theorem seekSetFrom_eq (hl : l ≠ []) (offset : Int) (i t : Nat) :
    ∃ pos before cur after, seekSetFrom offset i t l = .ok (pos, before ++ cur :: after) ∧
      Parted before cur after ∧
      pos.idx ≤ i + before.length ∧ contentOf (before ++ cur :: after) = contentOf l ∧
      (t ≤ offset → offset ≤ t + (contentOf l).length →
        pos = ⟨i + before.length, cur.offset⟩ ∧ offset = t + (contentOf before).length +
          cur.offset) := by
  induction l generalizing i t with
  | nil => exact absurd rfl hl
  | cons rdr rest ih =>
    have hsize : rdr.content.length = rdr.size := rfl
    rw [seekSetFrom, Cursor.seek_end, contentOf_cons, List.length_append]
    simp only [bind, Except.bind]
    by_cases hlt : t + rdr.size < offset
    · rw [if_pos hlt]
      by_cases hrest : rest = []
      · subst hrest
        obtain ⟨n, hn⟩ := Int.eq_ofNat_of_zero_le (a := rdr.size + (offset - t)) (by omega)
        rw [if_pos rfl, hn, Cursor.seek_set]
        refine ⟨⟨i, n⟩, [], { rdr with offset := n }, [], rfl, ⟨nofun, nofun, .inr rfl⟩,
          Nat.le_refl i, rfl, fun _ hle => ?_⟩
        simp at hle
        omega
      · obtain ⟨pos, before, cur, after, hloop, hparted, hidx, hcontent, hin⟩ :=
          ih hrest (i + 1) (t + rdr.size)
        rw [if_neg hrest, ← Int.natCast_add, hloop]
        refine ⟨pos, { rdr with offset := rdr.size } :: before, cur, after, rfl, ?_, ?_, ?_,
          fun _ hle => ?_⟩
        · exact { hparted with before_end := List.forall_mem_cons.2 ⟨rfl, hparted.before_end⟩ }
        · rw [List.length_cons]
          omega
        · rw [List.cons_append, contentOf_cons, hcontent]
        · obtain ⟨hpos, hsum⟩ := hin (by omega) (by omega)
          rw [hpos, List.length_cons, contentOf_cons, List.length_append]
          exact ⟨by rw [← Nat.add_assoc, Nat.add_right_comm i], by dsimp only; omega⟩
    · obtain ⟨k, hk, hmoved, hset⟩ : ∃ k ≤ rdr.size,
        ({ rdr with offset := rdr.size } : Cursor).moved (offset - t) .seekSet =
          { rdr with offset := k } ∧ (t ≤ offset → offset = t + k) := by
        by_cases ht : t ≤ offset
        · obtain ⟨k, hk⟩ := Int.eq_ofNat_of_zero_le (a := offset - t) (by omega)
          exact ⟨k, by omega, by rw [hk, Cursor.moved_set], by omega⟩
        · exact ⟨rdr.size, Nat.le_refl _, moved_of_neg _ (by omega), fun h => absurd h ht⟩
      have hzero : ∀ c : Cursor, c.moved 0 .seekSet = { c with offset := 0 } :=
        fun c => c.moved_set 0
      rw [if_neg hlt, hmoved]
      have hstart : ∀ c ∈ rest.map (·.moved 0 .seekSet), c.offset = 0 := by
        intro c hc
        obtain ⟨c', -, rfl⟩ := List.mem_map.1 hc
        rw [hzero]
      have hcontent : contentOf (rest.map (·.moved 0 .seekSet)) = contentOf rest :=
          contentOf_map fun c => by
        rw [hzero]
      by_cases hend : offset - t = rdr.size ∧ rest ≠ []
      · -- the boundary belongs to the next reader
        rw [if_pos hend]
        obtain ⟨hsum, hrest⟩ := hend
        obtain ⟨c, cs, rfl⟩ := List.exists_cons_of_ne_nil hrest
        have hk : k = rdr.size := by omega
        rw [List.map_cons] at hstart hcontent ⊢
        refine ⟨_, [{ rdr with offset := k }], c.moved 0 .seekSet, cs.map (·.moved 0 .seekSet), rfl,
          ⟨fun c' hc' => List.mem_singleton.1 hc' ▸ hk, fun c' hc' =>
            hstart c' (List.mem_cons_of_mem _ hc'), .inl ?_⟩,
          Nat.le_refl _, ?_, fun _ _ => ⟨?_, ?_⟩⟩
        · rw [hzero]
          exact Nat.zero_le _
        · rw [List.singleton_append, contentOf_cons, hcontent]
        · rw [hzero]
          rfl
        · rw [hzero, contentOf_cons, contentOf_nil, List.append_nil]
          dsimp only
          omega
      · rw [if_neg hend]
        refine ⟨_, [], { rdr with offset := k }, rest.map (·.moved 0 .seekSet), rfl,
          ⟨nofun, hstart, .inl hk⟩, Nat.le_refl _, ?_,
          fun ht _ => ⟨?_, ?_⟩⟩
        · rw [List.nil_append, contentOf_cons, hcontent]
        · have hsum := hset ht
          exact congrArg (Pos.mk i) (show offset - t = k by omega)
        · simpa using hset ht

theorem seekEndFrom_eq (l : List Cursor) :
    seekEndFrom l = .ok (((contentOf l).length : Int), l.map fun c =>
      { c with offset := c.size }) := by
  induction l with
  | nil => rfl
  | cons rdr rest ih =>
    rw [seekEndFrom, Cursor.seek_end, contentOf_cons, List.length_append, Int.natCast_add]
    simp only [bind, Except.bind, ih]
    rfl

theorem copyFrom_of_stop (h : n ≤ cur.rest.length ∨ after = []) : copyFrom i n (cur :: after) =
    some (cur.rest.take n, ⟨i, (cur.copyN n).2.offset⟩, (cur.copyN n).2 :: after) := by
  have hstop : n - (cur.rest.take n).length = 0 ∨ after = [] := by
    refine h.imp_left fun hn => ?_
    rw [List.length_take, Nat.min_eq_left hn, Nat.sub_self]
  exact if_pos hstop

theorem copyFrom_of_go (hn : cur.rest.length < n) (hafter : after ≠ []) :
    copyFrom i n (cur :: after) =
    (copyFrom (i + 1) (n - cur.rest.length) after).map fun (data, pos, rest) =>
      (cur.rest ++ data, pos, (cur.copyN n).2 :: rest) := by
  have htake : cur.rest.take n = cur.rest := List.take_of_length_le (Nat.le_of_lt hn)
  have hgo : ¬ (n - (cur.rest.take n).length = 0 ∨ after = []) := by
    rw [htake, not_or]
    exact ⟨by omega, hafter⟩
  refine (if_neg hgo).trans ?_
  rw [Cursor.copyN, htake]

theorem copyFrom_eq (hstart : ∀ c ∈ after, c.offset = 0)
    (hinside : cur.offset ≤ cur.size ∨ after = []) :
    ∃ mid cur' after', copyFrom i n (cur :: after) = some ((cur.rest ++ contentOf after).take n,
        ⟨i + mid.length, cur'.offset⟩, mid ++ cur' :: after') ∧
      Parted mid cur' after' ∧
      (contentOf mid).length + cur'.offset = cur.offset +
      ((cur.rest ++ contentOf after).take n).length ∧
      contentOf (mid ++ cur' :: after') = contentOf (cur :: after) := by
  induction after generalizing cur i n with
  | nil =>
    refine ⟨[], (cur.copyN n).2, [], ?_, ⟨nofun, nofun, .inr rfl⟩, ?_, rfl⟩
    · rw [copyFrom_of_stop (.inr rfl), contentOf_nil, List.append_nil]
      rfl
    · rw [contentOf_nil, List.append_nil, List.length_nil, Nat.zero_add]
      rfl
  | cons c cs ih =>
    have hcur : cur.offset ≤ cur.size := hinside.resolve_right (List.cons_ne_nil c cs)
    have hrest := cur.length_rest
    by_cases hn : n ≤ cur.rest.length
    · have htake : (cur.rest ++ contentOf (c :: cs)).take n = cur.rest.take n :=
        List.take_append_of_le_length hn
      refine ⟨[], (cur.copyN n).2, c :: cs, ?_, ⟨nofun, hstart, .inl ?_⟩, ?_, rfl⟩
      · rw [copyFrom_of_stop (.inl hn), htake]
        rfl
      · rw [Cursor.copyN_of_le hn]
        change _ ≤ cur.size
        omega
      · rw [htake, contentOf_nil, List.length_nil, Nat.zero_add]
        rfl
    · have hoffset : (cur.copyN n).2.offset = cur.size :=
        Cursor.offset_copyN_of_ge (Nat.le_of_not_le hn) hcur
      have hc : c.offset = 0 := hstart c List.mem_cons_self
      obtain ⟨mid, cur', after', hloop, hparted, hsum, hcontent⟩ :=
        @ih c (i + 1) (n - cur.rest.length)
        (fun c' hc' => hstart c' (List.mem_cons_of_mem _ hc')) (.inl (by omega))
      have htake : (cur.rest ++ contentOf (c :: cs)).take n =
          cur.rest ++ (c.rest ++ contentOf cs).take (n - cur.rest.length) := by
        rw [List.take_append, List.take_of_length_le (Nat.le_of_not_le hn), rest_of_start hc]
        rfl
      refine ⟨(cur.copyN n).2 :: mid, cur', after', ?_, ?_, ?_, ?_⟩
      · rw [copyFrom_of_go (Nat.lt_of_not_le hn) (List.cons_ne_nil c cs), hloop, htake,
          List.length_cons, ← Nat.add_assoc,
          Nat.add_right_comm i]
        rfl
      · refine { hparted with before_end := List.forall_mem_cons.2 ⟨?_, hparted.before_end⟩ }
        exact hoffset
      · rw [htake, contentOf_cons, List.length_append, List.length_append, Cursor.content_copyN]
        change cur.size + _ + _ = _
        omega
      · rw [List.cons_append, contentOf_cons, hcontent]
        rfl

end Lists

/-! ## The calls -/

namespace MultiReadSeeker

variable {r : MultiReadSeeker} {p : Nat}

theorem At.readers_ne_nil (h : r.At p) : r.readers ≠ [] := by
  obtain ⟨before, cur, after, hreaders, -⟩ := h
  rw [hreaders]
  exact List.append_ne_nil_of_right_ne_nil _ (List.cons_ne_nil cur after)

theorem at_multiReadSeeker (h : contents ≠ []) : (multiReadSeeker contents).At 0 := by
  obtain ⟨content, contents, rfl⟩ := List.exists_cons_of_ne_nil h
  refine ⟨[], { content }, contents.map fun content => { content }, rfl,
    ⟨nofun, ?_, .inl (Nat.zero_le _)⟩, rfl, rfl⟩
  intro c hc
  obtain ⟨content', -, rfl⟩ := List.mem_map.1 hc
  rfl

theorem contentOf_multiReadSeeker (contents : List Bytes) :
    contentOf (multiReadSeeker contents).readers = contents.flatten := by
  rw [contentOf, multiReadSeeker, List.map_map]
  exact congrArg _ (List.map_id contents)

theorem seekSet_eq (hr : r.readers ≠ []) (hn : n ≤ (contentOf r.readers).length) :
    ∃ r', r.seekSet n = (.ok (n : Int), r') ∧ r'.At n ∧
      contentOf r'.readers = contentOf r.readers := by
  obtain ⟨pos, before, cur, after, hloop, hparted, -, hcontent, hin⟩ := seekSetFrom_eq hr n 0 0
  obtain ⟨rfl, hsum⟩ := hin (by omega) (by omega)
  rw [Nat.zero_add] at hloop
  refine ⟨⟨before ++ cur :: after, some ⟨before.length, cur.offset⟩⟩, ?_,
    ⟨before, cur, after, rfl, hparted, rfl, by omega⟩,
    hcontent⟩
  rw [seekSet, ← Int.natCast_zero, hloop]

theorem seekEnd_eq (hr : r.readers ≠ []) (hn : n ≤ (contentOf r.readers).length)
    (hoffset : ((contentOf r.readers).length : Int) + offset = n) :
    ∃ r', r.seekEnd offset = (.ok (n : Int), r') ∧ r'.At n ∧
      contentOf r'.readers = contentOf r.readers := by
  have hcontent : contentOf (r.readers.map fun c => { c with offset := c.size }) =
    contentOf r.readers :=
    contentOf_map fun _ => rfl
  obtain ⟨r', hseek, hat, hr'⟩ := seekSet_eq
    (r := { r with readers := r.readers.map fun c => { c with offset := c.size } })
    (List.map_eq_nil_iff.not.2 hr) (hcontent.symm ▸ hn)
  refine ⟨r', ?_, hat, hr'.trans hcontent⟩
  rw [seekEnd, seekEndFrom_eq]
  dsimp only
  rw [hoffset, hseek]

theorem getCurOffset_of_split {pos : Pos} (hreaders : r.readers = before ++ rdr :: after)
    (hidx : pos.idx = before.length) :
    r.getCurOffset pos = .ok (((contentOf before).length : Int) + pos.offset, r.readers) := by
  rw [MultiReadSeeker.getCurOffset, if_pos (by simp [hreaders, hidx]), hreaders,
    curOffsetFrom_eq (by rw [hidx, Nat.zero_add])]
  rfl

theorem At.getCurOffset (h : r.At p) {pos : Pos} (hpos : r.pos = some pos) :
    r.getCurOffset pos = .ok ((p : Int), r.readers) := by
  obtain ⟨before, cur, after, hreaders, -, hp, rfl⟩ := h
  rw [hpos, getD_some] at hp
  rw [getCurOffset_of_split hreaders (congrArg Pos.idx hp), hp, Int.natCast_add]

theorem At.seekCur_zero (h : r.At p) :
    ∃ r', r.seekCur 0 = (.ok (p : Int), r') ∧ r'.At p ∧
      contentOf r'.readers = contentOf r.readers := by
  cases hpos : r.pos with
  | none =>
    obtain ⟨before, cur, after, hreaders, hparted, hp, rfl⟩ := h
    rw [hpos, getD_none, Pos.mk.injEq] at hp
    obtain rfl : before = [] := List.length_eq_zero_iff.1 hp.1.symm
    obtain hzero : cur.offset = 0 := Int.natCast_inj.1 hp.2.symm
    rw [contentOf_nil, List.length_nil, hzero, seekCur, hpos]
    exact seekSet_eq (by rw [hreaders]; exact List.cons_ne_nil cur after) (Nat.zero_le _)
  | some pos =>
    refine ⟨r, ?_, h, rfl⟩
    rw [seekCur, hpos]
    dsimp only
    rw [h.getCurOffset hpos]
    dsimp only
    rw [if_pos rfl, ← hpos]

/-- `Read` takes what the slice has capacity for, and returns what it has length for. -/
theorem At.read (h : r.At p) (b : Slice) :
    ∃ r', r.read b = (.ok (bufferRead (((contentOf r.readers).drop p).take b.cap) b.len), r') ∧
      r'.At (p + (((contentOf r.readers).drop p).take b.cap).length) ∧
        contentOf r'.readers = contentOf r.readers := by
  obtain ⟨before, cur, after, hreaders, hparted, hp, rfl⟩ := h
  obtain ⟨mid, cur', after', hloop, hparted', hsum, hcontent⟩ :=
    copyFrom_eq hparted.after_start hparted.inside
  rw [hreaders, hparted.drop_contentOf]
  refine ⟨⟨before ++ (mid ++ cur' :: after'), some ⟨before.length + mid.length, cur'.offset⟩⟩, ?_,
    ?_, ?_⟩
  · rw [read, hp, hreaders, List.drop_left, List.take_left, hloop]
  · refine ⟨before ++ mid, cur', after', (List.append_assoc ..).symm, ?_, ?_, ?_⟩
    · exact { hparted' with
        before_end := List.forall_mem_append.2 ⟨hparted.before_end, hparted'.before_end⟩ }
    · rw [List.length_append]
      rfl
    · rw [contentOf_append, List.length_append]
      omega
  · rw [contentOf_append, hcontent, contentOf_append]

theorem bufferRead_take (s : Bytes) (n : Nat) :
    bufferRead (s.take n) n = (s.take n, if n ≠ 0 ∧ s = [] then some .eof else none) := by
  unfold bufferRead
  by_cases hn : n = 0
  · subst hn
    simp
  · by_cases hs : s = []
    · simp [hn, hs]
    · simp [hn, hs, List.take_take]

/-- The reader stands where the single reader over the content does. -/
structure Follows (content : Bytes) (r : MultiReadSeeker) (c : Cursor) : Prop where
  standing : r.At c.offset
  content_eq : contentOf r.readers = content
  single_eq : c.content = content

theorem Follows.step (h : Follows content r c) (hop : op.InRange content.length) :
    (step op r).1 = (single op c).1 ∧ Follows content (step op r).2 (single op c).2 := by
  obtain ⟨hat, rfl, hc⟩ := h
  have hr := hat.readers_ne_nil
  have hsize : c.size = (contentOf r.readers).length := congrArg _ hc
  cases op with
  | seek offset whence =>
    cases whence with
    | seekSet =>
      obtain ⟨n, rfl⟩ := Int.eq_ofNat_of_zero_le hop.1
      obtain ⟨r', hseek, hat', hcontent⟩ := seekSet_eq hr (Int.ofNat_le.1 hop.2)
      have hmulti : r.seek n .seekSet = (.ok n, r') := hseek
      simp only [MultiReadSeeker.step, single, hmulti, c.seek_set n]
      exact ⟨trivial, hat', hcontent, hc⟩
    | seekEnd =>
      obtain ⟨n, hn⟩ := Int.eq_ofNat_of_zero_le hop.1
      obtain ⟨r', hseek, hat', hcontent⟩ := seekEnd_eq hr (Int.ofNat_le.1 (hn ▸ hop.2)) hn
      have hmulti : r.seek offset .seekEnd = (.ok n, r') := hseek
      have hsingle : c.seek offset .seekEnd = .ok (n, { c with offset := n }) :=
        Cursor.seek_of_target (congrArg _ (hsize ▸ hn))
      simp only [MultiReadSeeker.step, single, hmulti, hsingle]
      exact ⟨trivial, hat', hcontent, hc⟩
    | seekCur =>
      obtain rfl : offset = 0 := hop
      obtain ⟨r', hseek, hat', hcontent⟩ := hat.seekCur_zero
      have hmulti : r.seek 0 .seekCur = (.ok c.offset, r') := hseek
      simp only [MultiReadSeeker.step, single, hmulti, c.seek_cur]
      exact ⟨trivial, hat', hcontent, hc⟩
    | invalid whence => exact hop.elim
  | read b =>
    obtain ⟨r', hread, hat', hcontent⟩ := hat.read b
    have hb : b.len = b.cap := hop
    rw [← hc, ← hb, bufferRead_take] at hread
    rw [← hc, ← hb] at hat'
    simp only [MultiReadSeeker.step, single, hread]
    exact ⟨rfl, hat', hcontent, hc⟩

/-- Where the reader stands, it answers calls in range like a single reader. -/
theorem Follows.answers (h : Follows content r c) (hops : ∀ op ∈ ops, op.InRange content.length) :
    answers MultiReadSeeker.step ops r = answers single ops c :=
  answers_eq (fun op hop _ _ hr => hr.step (hops op hop)) h

end MultiReadSeeker

/-- At least two readers with these contents answer like one reader over all of them. -/
theorem multiReadSeeker_answers (contents : List Bytes) (h : 2 ≤ contents.length) (ops : List Op)
    (hops : ∀ op ∈ ops, op.InRange contents.flatten.length) :
    answers step ops (multiReadSeeker contents) =
      answers single ops { content := contents.flatten } := by
  have hne : contents ≠ [] := by
    rintro rfl
    cases h
  exact Follows.answers ⟨at_multiReadSeeker hne, contentOf_multiReadSeeker contents, rfl⟩ hops

/-- A slice without room behind it. -/
def Slice.full (n : Nat) : Slice := ⟨n, n, Nat.le_refl n⟩

/-- Over an empty reader, and from the end back over a boundary. -/
theorem multiReadSeeker_answers_three :
    answers step [.read (.full 2), .seek 0 .seekCur, .read (.full 2), .seek (-3) .seekEnd,
      .read (.full 4), .read (.full 1)]
      (multiReadSeeker [[1, 2], [], [3, 4]]) =
    [.bytes (.ok ([1, 2], none)), .position (.ok 2), .bytes (.ok ([3, 4], none)), .position (.ok 1),
      .bytes (.ok ([2, 3, 4], none)), .bytes (.ok ([], some .eof))] :=
  (multiReadSeeker_answers _ (by decide) _ (by decide)).trans (by decide)

/-! ## Slices with more capacity than length -/

section
variable {r : MultiReadSeeker} {t : Nat} {p : Int}

/-- The readers are at the position `t`, whatever `r.pos` says. -/
def MultiReadSeeker.Stands (r : MultiReadSeeker) (t : Nat) : Prop :=
  ∃ before cur after, r.readers = before ++ cur :: after ∧ Parted before cur after ∧
    (r.pos.getD ⟨0, 0⟩).idx ≤ before.length ∧ t = (contentOf before).length + cur.offset

theorem MultiReadSeeker.At.stands (h : r.At t) : r.Stands t := by
  obtain ⟨before, cur, after, hreaders, hparted, hp, rfl⟩ := h
  exact ⟨before, cur, after, hreaders, hparted, by rw [hp], rfl⟩

theorem copyFrom_append (hbefore : ∀ c ∈ before, c.offset = c.size) (hn : 0 < n) (hl : l ≠ []) :
    copyFrom i n (before ++ l) =
      (copyFrom (i + before.length) n l).map fun (data, pos, rest) =>
      (data, pos, before ++ rest) := by
  induction before generalizing i with
  | nil => simp
  | cons c before ih =>
    have hrest : c.rest = [] := by
      rw [Cursor.rest, hbefore c List.mem_cons_self, Cursor.size, List.drop_length]
    have hsame : (c.copyN n).2 = c := by
      rw [Cursor.copyN, hrest, List.take_nil]
      rfl
    rw [List.cons_append, copyFrom_of_go (by rwa [hrest])
      (List.append_ne_nil_of_right_ne_nil _ hl), hsame, hrest,
      List.length_nil, Nat.sub_zero, ih fun c' hc' => hbefore c' (List.mem_cons_of_mem _ hc'),
        List.length_cons,
      Nat.add_assoc, Nat.add_comm 1, map_map]
    rfl

/-- A read goes over the readers that are at their ends, wherever it begins among them. -/
theorem read_of_parted (hreaders : r.readers = before ++ cur :: after)
    (hparted : Parted before cur after)
    (hidx : (r.pos.getD ⟨0, 0⟩).idx ≤ before.length) {b : Slice} (hb : 0 < b.cap) :
    r.read b = ({ r with pos := some ⟨before.length, cur.offset⟩ } : MultiReadSeeker).read b := by
  obtain ⟨mid, cur', after', hloop, -⟩ :=
    copyFrom_eq (i := before.length) (n := b.cap) hparted.after_start hparted.inside
  have hend : ∀ c ∈ before.drop (r.pos.getD ⟨0, 0⟩).idx, c.offset = c.size :=
    fun c hc => hparted.before_end c (List.mem_of_mem_drop hc)
  have hall := copyFrom_append (i := (r.pos.getD ⟨0, 0⟩).idx) hend hb (List.cons_ne_nil cur after)
  rw [List.length_drop, Nat.add_sub_of_le hidx, hloop] at hall
  rw [MultiReadSeeker.read, MultiReadSeeker.read, getD_some, hreaders,
    List.drop_append_of_le_length hidx, hall, List.drop_left,
    hloop, List.take_append_of_le_length hidx, List.take_left]
  dsimp only [Option.map_some]
  rw [← List.append_assoc, List.take_append_drop]

theorem MultiReadSeeker.Stands.read (h : r.Stands t) {b : Slice} (hb : 0 < b.cap) :
    ∃ r', r.read b = (.ok (bufferRead (((contentOf r.readers).drop t).take b.cap) b.len), r') ∧
      r'.At (t + (((contentOf r.readers).drop t).take b.cap).length) ∧
        contentOf r'.readers = contentOf r.readers := by
  obtain ⟨before, cur, after, hreaders, hparted, hidx, rfl⟩ := h
  rw [read_of_parted hreaders hparted hidx hb]
  have hat : ({ r with pos := some ⟨before.length, cur.offset⟩ } : MultiReadSeeker).At _ :=
    ⟨before, cur, after, hreaders, hparted, rfl, rfl⟩
  exact hat.read b

theorem MultiReadSeeker.Stands.split (h : r.Stands t) :
    ∃ before rdr after, r.readers = before ++ rdr :: after ∧
      (r.pos.getD ⟨0, 0⟩).idx = before.length := by
  obtain ⟨before, cur, after, hreaders, -, hidx, -⟩ := h
  have hlt : (r.pos.getD ⟨0, 0⟩).idx < r.readers.length := by
    rw [hreaders, List.length_append, List.length_cons]
    omega
  generalize (r.pos.getD ⟨0, 0⟩).idx = n at hlt
  exact ⟨r.readers.take n, r.readers.get ⟨n, hlt⟩,
    r.readers.drop (n + 1), by simp, by simp [hlt.le]⟩

/-- What `Seek(0, SEEK_CUR)` reports. -/
theorem seekCur_zero_of_split (hreaders : r.readers = before ++ rdr :: after)
    (hidx : (r.pos.getD ⟨0, 0⟩).idx = before.length) :
    (r.seek 0 .seekCur).1 = .ok (((contentOf before).length : Int) +
      (r.pos.getD ⟨0, 0⟩).offset) := by
  have hne : r.readers ≠ [] := by simp [hreaders]
  cases hpos : r.pos with
  | none =>
    rw [hpos] at hidx
    obtain rfl : before = [] := List.length_eq_zero_iff.1 hidx.symm
    obtain ⟨r', hseek, -⟩ := seekSet_eq hne (Nat.zero_le _)
    rw [seek, seekCur, hpos]
    exact congrArg Prod.fst hseek
  | some pos =>
    rw [hpos, getD_some] at hidx
    rw [seek, seekCur, hpos]
    dsimp only
    rw [getCurOffset_of_split hreaders hidx]
    rfl

/-- A read into a slice without capacity moves `r.pos` to where the reader is. -/
theorem read_of_cap_zero (hreaders : r.readers = before ++ rdr :: after)
    (hidx : (r.pos.getD ⟨0, 0⟩).idx = before.length) {b : Slice} (hb : b.cap = 0) : r.read b =
    (.ok ([], none), { r with pos := some ⟨before.length, rdr.offset⟩ }) := by
  have hlen : b.len = 0 := Nat.eq_zero_of_le_zero (hb ▸ b.len_le_cap)
  have hsame : (rdr.copyN 0).2 = rdr := rfl
  rw [MultiReadSeeker.read, hidx, hreaders, List.drop_left, hb,
    copyFrom_of_stop (.inl (Nat.zero_le _)), hlen, hsame, List.take_left,
    List.take_zero]
  rfl

theorem seekSet_stands (hr : r.readers ≠ []) (offset : Int) :
    ∃ t, (r.seekSet offset).2.Stands t := by
  obtain ⟨pos, before, cur, after, hloop, hparted, hidx, -⟩ := seekSetFrom_eq hr offset 0 0
  rw [Nat.zero_add] at hidx
  rw [seekSet, ← Int.natCast_zero, hloop]
  exact ⟨_, before, cur, after, rfl, hparted, hidx, rfl⟩

/-- Whatever is called, the readers stand somewhere. -/
theorem MultiReadSeeker.Stands.step (h : r.Stands t) (op : Op) :
    ∃ t', (MultiReadSeeker.step op r).2.Stands t' := by
  have hr : r.readers ≠ [] := by
    obtain ⟨before, cur, after, hreaders, -⟩ := h
    simp [hreaders]
  cases op with
  | seek offset whence =>
    cases whence with
    | seekSet => exact seekSet_stands hr offset
    | seekEnd =>
      have hend := seekSet_stands (r :=
        { r with readers := r.readers.map fun c => { c with offset := c.size } })
        (by simpa using hr)
        ((contentOf r.readers).length + offset)
      rwa [MultiReadSeeker.step, seek, seekEnd, seekEndFrom_eq]
    | seekCur =>
      obtain ⟨before', rdr, after', hsplit, hidx⟩ := h.split
      rw [MultiReadSeeker.step, seek, seekCur]
      cases hpos : r.pos with
      | none => exact seekSet_stands hr offset
      | some pos =>
        rw [hpos, getD_some] at hidx
        dsimp only
        rw [getCurOffset_of_split hsplit hidx]
        dsimp only
        rw [← hpos]
        split
        · exact ⟨t, h⟩
        · split
          · exact ⟨t, h⟩
          · next hreader =>
            obtain ⟨rdrOffset, -, hreader⟩ := Fallible.bind_eq_ok.1 hreader
            cases hreader
            -- only `r.pos` has changed
            obtain ⟨before, cur, after, hreaders, hparted, -, ht⟩ := h
            exact ⟨t, before, cur, after, hreaders, hparted, Nat.zero_le _, ht⟩
    | invalid whence => exact ⟨t, h⟩
  | read b =>
    rw [MultiReadSeeker.step]
    rcases Nat.eq_zero_or_pos b.cap with hb | hb
    · obtain ⟨before', rdr, after', hsplit, hidx⟩ := h.split
      rw [read_of_cap_zero hsplit hidx hb]
      obtain ⟨before, cur, after, hreaders, hparted, hle, ht⟩ := h
      exact ⟨t, before, cur, after, hreaders, hparted, hidx ▸ hle, ht⟩
    · obtain ⟨r', hread, hat, -⟩ := h.read hb
      rw [hread]
      exact ⟨_, hat.stands⟩

theorem MultiReadSeeker.Stands.of_calls (h : r.Stands t) (ops : List Op) :
    ∃ t', (ops.foldl (fun r op => (MultiReadSeeker.step op r).2) r).Stands t' := by
  induction ops generalizing r t with
  | nil => exact ⟨t, h⟩
  | cons op ops ih =>
    obtain ⟨t', h'⟩ := h.step op
    exact ih h'

theorem bufferRead_fst (buf : Bytes) (n : Nat) : (bufferRead buf n).1 = buf.take n := by
  unfold bufferRead
  split
  · next hnil =>
    rw [hnil, List.take_nil]
    split <;> rfl
  · rfl

theorem Parted.of_position (h : Parted before cur after)
    (hreaders : before ++ cur :: after = before' ++ rdr :: after')
    (hle : before'.length ≤ before.length)
    (ht : (contentOf before').length + rdr.offset = (contentOf before).length + cur.offset) :
    Parted before' rdr after' := by
  obtain ⟨bs, rfl⟩ : before' <+: before :=
    List.prefix_of_prefix_length_le ⟨_, hreaders.symm⟩ (List.prefix_append ..) hle
  rw [List.append_assoc] at hreaders
  have hrest := List.append_cancel_left hreaders
  cases bs with
  | nil =>
    cases hrest
    exact List.append_nil before' ▸ h
  | cons rdr bs =>
    cases hrest
    -- the readers between the two are empty
    have hrdr := h.before_end rdr (by simp)
    have hsize : rdr.size = rdr.content.length := rfl
    simp only [contentOf_append, contentOf_cons, List.length_append] at ht
    have hempty : ∀ c ∈ bs, c.content.length ≤ (contentOf bs).length := fun c hc =>
      (List.sublist_flatten_of_mem (List.mem_map_of_mem hc)).length_le
    refine ⟨fun c hc => h.before_end c (List.mem_append_left _ hc), fun c hc => ?_, .inl hrdr.le⟩
    rcases List.mem_append.1 hc with hc | hc
    · have hc' := h.before_end c (by simp [hc])
      have hsize : c.size = c.content.length := rfl
      have := hempty c hc
      omega
    · rcases List.mem_cons.1 hc with rfl | hc
      · omega
      · exact h.after_start c hc

/-- `Read` returns the bytes from `t` on, and then the position is `p` and as many bytes further,
and the later calls are answered like those of a single reader there. -/
def Consumes (r : MultiReadSeeker) (t : Nat) (p : Int) (b : Slice) : Prop :=
  ∃ data err r', r.read b = (.ok (data, err), r') ∧
    data = ((contentOf r.readers).drop t).take data.length ∧
    (r'.seek 0 .seekCur).1 = .ok (p + data.length) ∧
    ∀ ops : List Op, (∀ op ∈ ops, op.InRange (contentOf r.readers).length) →
      answers step ops r' = answers single ops
        { content := contentOf r.readers, offset := t + data.length }

theorem position_eq {r' : MultiReadSeeker} {q : Int} (hq : (r'.seek 0 .seekCur).1 = .ok q)
    (hops : ∀ ops : List Op, (∀ op ∈ ops, op.InRange n) →
      answers step ops r' = answers single ops ⟨content, t⟩) : q = t := by
  have hone := hops [.seek 0 .seekCur] (by simp [Op.InRange])
  simp only [answers, MultiReadSeeker.step, single, Cursor.seek_cur, hq] at hone
  simpa using hone

theorem MultiReadSeeker.At.consumes (h : r.At t) {b : Slice}
    (hb : b.cap = b.len ∨ (contentOf r.readers).length ≤ t + b.len) :
    Consumes r t t b := by
  obtain ⟨r', hread, hat, hcontent⟩ := h.read b
  obtain ⟨_, hseek, -⟩ := hat.seekCur_zero
  generalize hs : (contentOf r.readers).drop t = s at hread hat hseek
  have htake : s.take b.cap = s.take b.len := by
    obtain hcap | hleft := hb
    · rw [hcap]
    · have hlen : s.length ≤ b.len := by
        rw [← hs, List.length_drop]
        omega
      rw [List.take_of_length_le hlen, List.take_of_length_le (Nat.le_trans hlen b.len_le_cap)]
  rw [htake, bufferRead_take] at hread
  rw [htake] at hat hseek
  refine ⟨_, _, r', hread, ?_, congrArg Prod.fst hseek, fun ops hops =>
    Follows.answers ⟨hat, hcontent, rfl⟩ hops⟩
  rw [hs, List.length_take, List.take_eq_take_min]

theorem MultiReadSeeker.At.consumes_iff (h : r.At t) {b : Slice} :
    Consumes r t p b ↔ (b.cap = b.len ∨ (contentOf r.readers).length ≤ t + b.len) ∧ p = t := by
  refine ⟨?_, fun ⟨hb, hpt⟩ => hpt ▸ h.consumes hb⟩
  rintro ⟨data, err, r', hread, -, hseek, hops⟩
  obtain ⟨r₁, hread₁, hat, -⟩ := h.read b
  rw [hread] at hread₁
  obtain ⟨hdata, rfl⟩ := Prod.mk.inj hread₁
  have hdata : data = _ := congrArg Prod.fst (Except.ok.inj hdata)
  have hle := b.len_le_cap
  rw [bufferRead_fst, List.take_take, Nat.min_eq_left hle] at hdata
  obtain ⟨_, hseek₁, -⟩ := hat.seekCur_zero
  have hcount := position_eq (congrArg Prod.fst hseek₁) hops
  have hmoved := position_eq hseek hops
  have hlength := congrArg List.length hdata
  simp only [List.length_take, List.length_drop] at hcount hlength
  omega

/-- A read consumes what it returns if and only if the slice has no more capacity than length or no
more bytes are left, and the reported position is that of the readers; into a slice without
capacity, `r.pos` is at the right reader too. -/
theorem read_consumes (r : MultiReadSeeker) (t : Nat) (h : r.Stands t) (p : Int)
    (hp : (r.seek 0 .seekCur).1 = .ok p) (b : Slice) :
    Consumes r t p b ↔
      (b.cap = b.len ∨ (contentOf r.readers).length ≤ t + b.len) ∧ p = t ∧
      (b.cap = 0 → r.At t) := by
  obtain ⟨before, cur, after, hreaders, hparted, hidx, rfl⟩ := id h
  have hle := b.len_le_cap
  by_cases hb : b.cap = 0
  · refine ⟨fun hconsumes => ⟨.inl (by omega), ?_⟩, fun ⟨_, hpt, hat⟩ =>
      hpt ▸ (hat hb).consumes (.inl (by omega))⟩
    obtain ⟨before', rdr, after', hsplit, hlength⟩ := h.split
    obtain ⟨data, err, r', hread, -, hseek, hops⟩ := hconsumes
    rw [read_of_cap_zero hsplit hlength hb] at hread
    cases hread
    have hpos := position_eq hseek hops
    rw [seekCur_zero_of_split hsplit hlength] at hp
    rw [seekCur_zero_of_split (by exact hsplit) rfl] at hseek
    have hp := Except.ok.inj hp
    have hseek := Except.ok.inj hseek
    simp only [List.length_nil, getD_some] at hpos hseek
    refine ⟨by omega, fun _ => ⟨before', rdr, after', hsplit, ?_, ?_, by omega⟩⟩
    · exact hparted.of_position (hreaders.symm.trans hsplit) (hlength ▸ hidx) (by omega)
    · have hoffset : (r.pos.getD ⟨0, 0⟩).offset = rdr.offset := by omega
      rw [← hlength, ← hoffset]
  · have hat : ({ r with pos := some ⟨before.length, cur.offset⟩ } : MultiReadSeeker).At _ :=
      ⟨before, cur, after, hreaders, hparted, rfl, rfl⟩
    have hsame := hat.consumes_iff (p := p) (b := b)
    rw [Consumes, ← read_of_parted hreaders hparted hidx (Nat.pos_of_ne_zero hb)] at hsame
    exact hsame.trans (by simp [hb])

theorem read_consumes_two : ∃ data err r', (multiReadSeeker [[1, 2], [3, 4]]).read (.full 3) =
    (.ok (data, err), r') ∧
    data = [1, 2, 3] ∧ (r'.seek 0 .seekCur).1 = .ok 3 := by
  have hat : (multiReadSeeker [[1, 2], [3, 4]]).At 0 := at_multiReadSeeker (List.cons_ne_nil _ _)
  obtain ⟨data, err, r', hread, -, hseek, -⟩ :=
    (read_consumes _ 0 hat.stands 0 (by decide) (.full 3)).2 ⟨.inl rfl, rfl, fun _ => hat⟩
  have hdata : ((multiReadSeeker [[1, 2], [3, 4]]).read (.full 3)).1 = .ok ([1, 2, 3], none) := by
    decide
  rw [hread] at hdata
  cases hdata
  exact ⟨_, _, r', hread, rfl, hseek⟩

/-- One byte is returned into a slice of length 1 and capacity 4, and four are gone. -/
theorem read_skips : ((multiReadSeeker [[1, 2], [3, 4]]).read ⟨1, 4, by decide⟩).1 =
    .ok ([1], none) ∧
    (((multiReadSeeker [[1, 2], [3, 4]]).read ⟨1, 4, by decide⟩).2.seek 0 .seekCur).1 = .ok 4 ∧
    (((multiReadSeeker [[1, 2], [3, 4]]).read ⟨1, 4, by decide⟩).2.read (.full 1)).1 =
      .ok ([], some .eof) := by
  decide

end

/-! ## Relative seeks -/

section
variable {r : MultiReadSeeker} {p : Nat}

/-- A relative seek of a reader that has not been used is an absolute one. -/
theorem seekCur_of_unused (r : MultiReadSeeker) (hr : 2 ≤ r.readers.length) (hpos : r.pos = none)
    (p d : Int) (hp : (r.seek 0 .seekCur).1 = .ok p) (hlow : 0 ≤ p + d)
    (hhigh : p + d ≤ (contentOf r.readers).length) :
    (r.seek d .seekCur).1 = .ok (p + d) ∧ r.seek d .seekCur = r.seek (p + d) .seekSet := by
  have hne : r.readers ≠ [] := by
    intro hnil
    rw [hnil] at hr
    cases hr
  have hset : ∀ offset, r.seek offset .seekCur = r.seek offset .seekSet := fun offset => by
    show r.seekCur offset = r.seekSet offset
    rw [seekCur, hpos]
  obtain ⟨_, hzero, -⟩ := seekSet_eq hne (Nat.zero_le _)
  obtain rfl : 0 = p := by
    rw [hset] at hp
    exact Except.ok.inj ((congrArg Prod.fst hzero).symm.trans hp)
  rw [Int.zero_add] at hlow hhigh ⊢
  obtain ⟨n, rfl⟩ := Int.eq_ofNat_of_zero_le hlow
  obtain ⟨_, hseek, -⟩ := seekSet_eq hne (Int.ofNat_le.1 hhigh)
  rw [hset]
  exact ⟨congrArg Prod.fst hseek, rfl⟩

theorem seekCur_of_unused_three : ((multiReadSeeker [[1, 2], [3, 4]]).seek 3 .seekCur).1 = .ok 3 ∧
    (multiReadSeeker [[1, 2], [3, 4]]).seek 3 .seekCur =
    (multiReadSeeker [[1, 2], [3, 4]]).seek 3 .seekSet :=
  seekCur_of_unused (multiReadSeeker [[1, 2], [3, 4]]) (by decide) rfl 0 3 (by decide)
    (by decide) (by decide)

/-- A reader from which one byte was read. -/
def oneRead : MultiReadSeeker := ((multiReadSeeker [[1, 2], [3, 4]]).read (.full 1)).2

/-- From position 1, one byte forward: the byte at position 1 is read, and position 4 is
reported. -/
theorem seekCur_lost : (oneRead.seek 0 .seekCur).1 = .ok 1 ∧ (oneRead.seek 1 .seekCur).1 = .ok 2 ∧
    ((oneRead.seek 1 .seekCur).2.read (.full 1)).1 = .ok ([2], none) ∧
    ((oneRead.seek 2 .seekSet).2.read (.full 1)).1 = .ok ([3], none) ∧
    ((oneRead.seek 1 .seekCur).2.seek 0 .seekCur).1 = .ok 4 := by
  decide

end

end Docker.Ioutils.MultiReader
