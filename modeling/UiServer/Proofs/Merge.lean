import Mathlib.Data.List.Induction
import Mathlib.Data.List.Perm.Basic
import UiServer.Server.Loop

/-!
# Merging the replies

Each complete reply that is read adds its counts to the merged head, puts its
own data in the place of the data that is there, and appends its body if it has
results. The counts and the bodies do not care about the order of the replies
and the data does, so the order shows exactly if the data of some two replies
differ.

That holds of a family that is merged inside `buf` and `padding`. What is read
last needs the most room, since its head is not kept, nor its body if it has no
results; so a family stays inside in every order exactly if each reply has room
behind the bodies of all others (`mergedInside_iff`).
-/

namespace UiServer

open CMem

/-! ## One reply

What a complete reply does to the merged one, in terms of the reply: its head is
found where the read has put it, its body moves down over that head. The length is
a word of 32 bits, and adding to it is only right as long as it does not wrap
around. -/

def mergeHead (h phead : UpstreamResponseHead) : UpstreamResponseHead :=
  { h with
    returnNum := h.returnNum + phead.returnNum
    resNum := h.resNum + phead.resNum
    totalNum := h.totalNum + phead.totalNum
    data := phead.data }

/-- What a reply adds to the merged body. -/
def Reply.resultBody (a : Reply) : Bytes :=
  if a.head.returnNum = 0 then [] else a.body

theorem mergeRead_head (r : UpstreamResponse) (a : Reply) :
    (mergeRead r a.bytes).head = mergeHead r.head a.head := by
  rw [mergeRead, mergeReply, Reply.bytes]
  simp only [readHead_store]
  split <;> rfl

theorem mergeRead_len (r : UpstreamResponse) (a : Reply) :
    (mergeRead r a.bytes).len = r.len + UInt32.ofNat a.resultBody.length := by
  rw [mergeRead, mergeReply, Reply.resultBody]
  simp only [Reply.bytes, readHead_store]
  by_cases h : a.head.returnNum = 0
  · simp [h]
  · have hbody : ((a.head.bytes ++ a.body).length : Int) - (responseHeadSize : Nat) =
        (a.body.length : Int) := by
      rw [List.length_append, UpstreamResponseHead.length_bytes]
      omega
    rw [if_pos h, if_neg h, hbody, u32_ofInt_natCast]

theorem mergeRead_body {r : UpstreamResponse} {a : Reply}
    (h : r.len.toNat + a.resultBody.length < 2 ^ 32) :
    (mergeRead r a.bytes).body = r.body ++ a.resultBody := by
  have hlen : (mergeRead r a.bytes).len.toNat = r.len.toNat + a.resultBody.length := by
    rw [mergeRead_len, UInt32.toNat_add, UInt32.toNat_ofNat']
    omega
  simp only [UpstreamResponse.body]
  rw [hlen, read_append, Nat.zero_add]
  by_cases hz : a.head.returnNum = 0
  · have hbuf : (mergeRead r a.bytes).buf = store r.buf r.len.toNat a.bytes := by
      rw [mergeRead, mergeReply, Reply.bytes]
      simp only [readHead_store]
      rw [if_neg (fun h => h hz)]
    have hnil : a.resultBody = [] := if_pos hz
    rw [hbuf, hnil, read_store_before (by omega)]
    rfl
  · have hres : a.resultBody = a.body := if_neg hz
    have hbuf : (mergeRead r a.bytes).buf =
        store (store r.buf r.len.toNat a.bytes) r.len.toNat a.body := by
      have hbody : (a.bytes.length : Int) - (responseHeadSize : Nat) =
          (a.body.length : Int) := by
        rw [Reply.length_bytes]
        omega
      have hread : read (store r.buf r.len.toNat a.bytes)
          (r.len.toNat + responseHeadSize) a.body.length = a.body := by
        rw [read_store_part (by rw [Reply.length_bytes]), Reply.bytes,
          List.drop_left' (UpstreamResponseHead.length_bytes _), List.take_length]
      have hhead : readHead (store r.buf r.len.toNat a.bytes) r.len.toNat = a.head :=
        readHead_store _ _ _ _
      rw [mergeRead, mergeReply]
      simp only [hhead, hbody, Int.toNat_natCast, hread]
      rw [if_pos hz]
    rw [hbuf, hres, read_store_before (by omega), read_store_before (by omega),
      read_store]

/-! ## A family of replies

A run that reads the replies of a list folds them into the merged reply. The
counts are sums, the data is that of the last one, and the body is one body behind
the other. -/

structure Arrival where
  g : Nat
  s : Nat
  reply : Reply

def readAll (c : ConnCtx) (l : List Arrival) : ConnCtx :=
  l.foldl (fun c a => readUpstream c a.g a.s a.reply.bytes) c

/-- The merged reply only depends on the replies. -/
theorem readAll_upstreamResponse {l : List Arrival} : ∀ {c : ConnCtx},
    c.request.web.needMerge ≠ 0 →
    (readAll c l).upstreamResponse =
      l.foldl (fun r a => mergeRead r a.reply.bytes) c.upstreamResponse := by
  induction l with
  | nil => intro c _; rfl
  | cons a l ih =>
      intro c hm
      have hread := readUpstream_eq (g := a.g) (s := a.s) a.reply.bytes_ne_nil hm
      have hm' : (readUpstream c a.g a.s a.reply.bytes).request.web.needMerge ≠ 0 := by
        rw [hread]
        exact hm
      have hmerge : (readUpstream c a.g a.s a.reply.bytes).upstreamResponse =
          mergeRead c.upstreamResponse a.reply.bytes := by
        rw [hread]
      show (readAll (readUpstream c a.g a.s a.reply.bytes) l).upstreamResponse = _
      rw [ih hm', hmerge, List.foldl_cons]

def heads (l : List Arrival) : List UpstreamResponseHead := l.map (·.reply.head)

def bodies (l : List Arrival) : List Bytes := l.map (·.reply.resultBody)

theorem foldl_mergeRead_head {l : List Arrival} : ∀ {r : UpstreamResponse},
    (l.foldl (fun r a => mergeRead r a.reply.bytes) r).head =
      (heads l).foldl mergeHead r.head := by
  induction l with
  | nil => intro r; rfl
  | cons a l ih =>
      intro r
      rw [List.foldl_cons, ih, mergeRead_head]
      rfl

theorem foldl_mergeRead_body {l : List Arrival} : ∀ {r : UpstreamResponse},
    r.len.toNat + (bodies l).flatten.length < 2 ^ 32 →
    (l.foldl (fun r a => mergeRead r a.reply.bytes) r).body =
      r.body ++ (bodies l).flatten := by
  induction l with
  | nil =>
      intro r _
      simp [bodies]
  | cons a l ih =>
      intro r h
      have hcons : (bodies (a :: l)).flatten =
          a.reply.resultBody ++ (bodies l).flatten := rfl
      rw [hcons, List.length_append] at h
      have hlen : (mergeRead r a.reply.bytes).len.toNat =
          r.len.toNat + a.reply.resultBody.length := by
        rw [mergeRead_len, UInt32.toNat_add, UInt32.toNat_ofNat']
        omega
      rw [List.foldl_cons, ih (by rw [hlen]; omega), mergeRead_body (by omega), hcons,
        List.append_assoc]

/-! ## The order of the replies

Two heads with the same data can change places in the fold, and any order comes
from any other by such changes. Where two replies differ in their data, putting
the one or the other last shows the difference, so the condition is exact. -/

/-- The order in which the replies are merged does not show: not in the head,
and in the body only as the order of the bodies. A reply without results does
not give its data to a merged reply that has some. -/
structure OrderFree (c : ConnCtx) (fam : List Arrival) : Prop where
  head : ∀ l l' : List Arrival, l.Perm fam → l'.Perm fam →
    (readAll c l).upstreamResponse.head = (readAll c l').upstreamResponse.head
  data : ∀ l : List Arrival, l.Perm fam → (∃ a ∈ l, a.reply.head.returnNum ≠ 0) →
    ∃ a ∈ l, a.reply.head.returnNum ≠ 0 ∧
      (readAll c l).upstreamResponse.head.data = a.reply.head.data
  body : ∀ l : List Arrival, l.Perm fam → ∃ bs : List Bytes, bs.Perm (bodies fam) ∧
    (readAll c l).upstreamResponse.body = bs.flatten

def SameData (fam : List Arrival) : Prop :=
  ∀ a ∈ fam, ∀ b ∈ fam, a.reply.head.data = b.reply.head.data

theorem readAll_last_data {c : ConnCtx} (hm : c.request.web.needMerge ≠ 0)
    (l : List Arrival) (a : Arrival) :
    (readAll c (l ++ [a])).upstreamResponse.head.data = a.reply.head.data := by
  rw [readAll_upstreamResponse hm, foldl_mergeRead_head, heads, List.map_append,
    List.foldl_append]
  rfl

theorem exists_perm_last {fam : List Arrival} {a : Arrival} (h : a ∈ fam) :
    ∃ l, (l ++ [a]).Perm fam := by
  obtain ⟨s, t, rfl⟩ := List.append_of_mem h
  refine ⟨s ++ t, ?_⟩
  rw [List.append_assoc]
  exact List.Perm.append_left s (List.perm_append_singleton a t)

theorem mergeHead_comm {p q : UpstreamResponseHead} (h : p.data = q.data)
    (r : UpstreamResponseHead) :
    mergeHead (mergeHead r p) q = mergeHead (mergeHead r q) p := by
  have hadd : ∀ x y z : UInt32, x + y + z = x + z + y := fun x y z => by
    rw [UInt32.add_assoc, UInt32.add_comm y z, ← UInt32.add_assoc]
  simp only [mergeHead]
  simp only [hadd r.returnNum p.returnNum, hadd r.resNum p.resNum,
    hadd r.totalNum p.totalNum, h]

theorem SameData.perm {fam l : List Arrival} (h : SameData fam) (hl : l.Perm fam) :
    SameData l := fun a ha b hb => h a (hl.subset ha) b (hl.subset hb)

theorem SameData.heads_foldl {fam l l' : List Arrival} (h : SameData fam)
    (hl : l.Perm fam) (hl' : l'.Perm fam) (r : UpstreamResponseHead) :
    (heads l).foldl mergeHead r = (heads l').foldl mergeHead r := by
  refine ((hl.trans hl'.symm).map _).foldl_eq' ?_ r
  intro p hp q hq z
  obtain ⟨a, ha, rfl⟩ := List.mem_map.1 hp
  obtain ⟨b, hb, rfl⟩ := List.mem_map.1 hq
  exact mergeHead_comm (h.perm hl a ha b hb) z

/-! ## The room for the replies

Each read of an upstream starts behind the bodies merged so far and brings a
whole reply, of which only the body stays. -/

/-- In every order each reply is read and merged inside `buf` and `padding`. -/
def MergedInside (c : ConnCtx) (fam : List Arrival) : Prop :=
  ∀ (pre : List Arrival) (a : Arrival) (post : List Arrival), (pre ++ a :: post).Perm fam →
    ReplyInside (readAll c pre) (.onGotUpstreamResponse a.g a.s (.data a.reply.bytes))

/-- There is room for each reply behind the bodies of all others. -/
def AllFit (fam : List Arrival) : Prop :=
  ∀ a ∈ fam, (bodies fam).flatten.length + a.reply.bytes.length ≤
    2 * responseBufSize + a.reply.resultBody.length

instance (fam : List Arrival) : Decidable (AllFit fam) :=
  inferInstanceAs (Decidable (∀ a ∈ fam, _))

theorem Reply.length_resultBody (a : Reply) : a.resultBody.length ≤ a.bytes.length := by
  rw [Reply.resultBody, Reply.length_bytes]
  split
  · exact Nat.zero_le _
  · exact Nat.le_add_left _ _

theorem bodyLen_reply (r : UpstreamResponse) (a : Reply) :
    bodyLen r a.bytes = a.resultBody.length := by
  rw [bodyLen, Reply.bytes, readHead_store, Reply.resultBody]
  split
  · rfl
  · rw [List.length_append, UpstreamResponseHead.length_bytes]
    omega

/-- A reply stays inside exactly if there is room for all of it. -/
theorem replyInside_iff {c : ConnCtx} {g s : Nat} {a : Reply} :
    ReplyInside c (.onGotUpstreamResponse g s (.data a.bytes)) ↔
      c.upstreamResponse.len.toNat + a.bytes.length ≤ 2 * responseBufSize := by
  have hbody := a.length_resultBody
  simp only [ReplyInside, InsideBuf, bodyLen_reply]
  constructor
  · rintro ⟨⟨-, hread⟩, -⟩
    exact_mod_cast hread
  · intro h
    exact ⟨⟨Int.natCast_nonneg _, by omega⟩, fun _ => ⟨Int.natCast_nonneg _, by omega⟩⟩

section

variable {c : ConnCtx} (hm : c.request.web.needMerge ≠ 0) (hlen : c.upstreamResponse.len = 0)

include hm hlen

theorem readAll_len {l : List Arrival} (h : (bodies l).flatten.length < 2 ^ 32) :
    (readAll c l).upstreamResponse.len.toNat = (bodies l).flatten.length := by
  have hzero : c.upstreamResponse.len.toNat = 0 := by rw [hlen]; rfl
  have hbody := congrArg List.length
    (foldl_mergeRead_body (r := c.upstreamResponse) (l := l) (by omega))
  rw [← readAll_upstreamResponse hm, List.length_append, UpstreamResponse.body,
    UpstreamResponse.body, length_read, length_read, hzero, Nat.zero_add] at hbody
  exact hbody

/-- Replies that stay inside are counted right, since they are far from the
largest word. -/
theorem bodies_lt_of_inside {l : List Arrival} : (∀ pre a post, l = pre ++ a :: post →
      ReplyInside (readAll c pre) (.onGotUpstreamResponse a.g a.s (.data a.reply.bytes))) →
    (bodies l).flatten.length ≤ 2 * responseBufSize := by
  induction l using List.reverseRecOn with
  | nil => exact fun _ => Nat.zero_le _
  | append_singleton l a ih =>
      intro h
      have hbefore := ih fun pre b post hl => h pre b (post ++ [a]) (by rw [hl]; simp)
      have hlast := replyInside_iff.1 (h l a [] rfl)
      have hbody := a.reply.length_resultBody
      rw [readAll_len hm hlen (by rw [responseBufSize] at hbefore; omega)] at hlast
      rw [bodies] at hlast ⊢
      rw [List.map_append, List.flatten_append, List.length_append, List.map_singleton,
        List.flatten_singleton]
      omega

theorem mergedInside_iff (fam : List Arrival) : MergedInside c fam ↔ AllFit fam := by
  have hlast : ∀ {l : List Arrival} {a : Arrival}, (l ++ [a]).Perm fam →
      (bodies l).flatten.length + a.reply.resultBody.length =
        (bodies fam).flatten.length := by
    intro l a hl
    have hsame : (bodies (l ++ [a])).flatten.length = (bodies fam).flatten.length :=
      (hl.map _).flatten.length_eq
    rw [← hsame, bodies, bodies, List.map_append, List.flatten_append, List.length_append,
      List.map_singleton, List.flatten_singleton]
  constructor
  · intro h a ha
    obtain ⟨l, hl⟩ := exists_perm_last ha
    have hinside := replyInside_iff.1 (h l a [] hl)
    have hbefore := bodies_lt_of_inside hm hlen (l := l) fun pre b post hsplit =>
      h pre b (post ++ [a]) (by rw [← List.cons_append, ← List.append_assoc, ← hsplit]; exact hl)
    rw [readAll_len hm hlen (by rw [responseBufSize] at hbefore; omega)] at hinside
    have htotal := hlast hl
    omega
  · intro h pre a post hperm
    have hfit := h a (hperm.subset (List.mem_append_right _ List.mem_cons_self))
    have hmoved : (pre ++ post ++ [a]).Perm fam := by
      refine List.Perm.trans ?_ hperm
      rw [List.append_assoc]
      exact List.Perm.append_left pre (List.perm_append_singleton a post)
    have htotal := hlast hmoved
    have hpre : (bodies pre).flatten.length ≤ (bodies (pre ++ post)).flatten.length := by
      rw [bodies, bodies, List.map_append, List.flatten_append, List.length_append]
      exact Nat.le_add_right _ _
    have hbytes : a.reply.bytes.length = responseHeadSize + a.reply.body.length :=
      a.reply.length_bytes
    have hsmall := a.reply.fits
    rw [replyInside_iff, readAll_len hm hlen]
    · omega
    · rw [responseBufSize] at hfit
      omega

/-- Exactly when a family of replies is merged inside the buffer and the order
does not show: when all replies carry the same data, and there is room for each
of them behind the bodies of the others. -/
theorem orderFree_iff (fam : List Arrival) :
    OrderFree c fam ∧ MergedInside c fam ↔ SameData fam ∧ AllFit fam := by
  rw [mergedInside_iff hm hlen]
  refine and_congr_left fun hfit => ?_
  constructor
  · intro h a ha b hb
    obtain ⟨l, hl⟩ := exists_perm_last ha
    obtain ⟨l', hl'⟩ := exists_perm_last hb
    have hhead := h.head _ _ hl hl'
    rw [← readAll_last_data hm l a, ← readAll_last_data hm l' b, hhead]
  · intro hsame
    refine ⟨fun l l' hl hl' => ?_, fun l hl hres => ?_, fun l hl => ?_⟩
    · rw [readAll_upstreamResponse hm, readAll_upstreamResponse hm,
        foldl_mergeRead_head, foldl_mergeRead_head]
      exact hsame.heads_foldl hl hl' _
    · obtain ⟨a, ha, hra⟩ := hres
      refine ⟨a, ha, hra, ?_⟩
      -- bring `a` to the end of the list: the head does not notice
      obtain ⟨l', hl'⟩ := exists_perm_last ha
      rw [← readAll_last_data hm l' a, readAll_upstreamResponse hm,
        readAll_upstreamResponse hm, foldl_mergeRead_head, foldl_mergeRead_head,
        hsame.heads_foldl hl (hl'.trans hl)]
    · refine ⟨bodies l, hl.map _, ?_⟩
      have hinside := bodies_lt_of_inside hm hlen (l := l) fun pre a post hsplit =>
        (mergedInside_iff hm hlen fam).2 hfit pre a post (hsplit ▸ hl)
      have hzero : c.upstreamResponse.len.toNat = 0 := by rw [hlen]; rfl
      have hnil : c.upstreamResponse.body = [] := by
        rw [UpstreamResponse.body, hzero]
        rfl
      rw [responseBufSize] at hinside
      rw [readAll_upstreamResponse hm, foldl_mergeRead_body (by omega), hnil,
        List.nil_append]

end

/-- What `on_request` leaves for the first reply. -/
theorem needMerge_acceptRequest (c : ConnCtx) :
    (acceptRequest c).request.web.needMerge ≠ 0 := by
  have hone : (acceptRequest c).request.web.needMerge = 1 := by
    show store (store c.request.web.mem 148 [1]) 149 [1] 148 = 1
    rw [store_lt (by decide)]
    exact store_at (i := 0) (by decide)
  rw [hone]
  decide

/-- A reply with `n` results and no body that asks for template `t`. -/
def tplReply (n t : UInt32) : Reply where
  head := { UpstreamResponseHead.zero with returnNum := n, data := ⟨0, 0, 0, 0, t⟩ }
  body := []
  fits := by decide

theorem orderFree_iff_sameTpl :
    OrderFree (acceptRequest .zeroed) [⟨0, 0, tplReply 1 7⟩, ⟨1, 0, tplReply 0 7⟩] := by
  refine ((orderFree_iff (needMerge_acceptRequest _) rfl _).2 ⟨?_, by decide⟩).1
  intro a ha b hb
  simp only [List.mem_cons, List.not_mem_nil, or_false] at ha hb
  rcases ha with rfl | rfl <;> rcases hb with rfl | rfl <;> rfl

/-- A reply without results that comes last puts its template in the place of
the one the results are for. -/
theorem orderFree_fails :
    ¬ ∀ (c : ConnCtx) (fam : List Arrival), OrderFree (acceptRequest c) fam := by
  intro hall
  have hm := needMerge_acceptRequest .zeroed
  have h := (hall .zeroed [⟨0, 0, tplReply 1 7⟩, ⟨1, 0, tplReply 0 8⟩]).head
    ([⟨0, 0, tplReply 1 7⟩] ++ [⟨1, 0, tplReply 0 8⟩])
    ([⟨1, 0, tplReply 0 8⟩] ++ [⟨0, 0, tplReply 1 7⟩])
    (List.Perm.refl _) (List.Perm.swap _ _ _)
  have hdata := congrArg UpstreamResponseHead.data h
  rw [readAll_last_data hm, readAll_last_data hm] at hdata
  revert hdata
  decide

end UiServer
