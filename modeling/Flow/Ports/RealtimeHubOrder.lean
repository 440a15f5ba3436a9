import Flow.Ports.RealtimeHub

/-!
# Pushed changes are delivered in order or answered by a resync

In every run of the hub, whatever the order in which events arrive,

* every published event that is not a routine credential event has been delivered
  once, or waits with the gap timer armed, or was followed by a resync marker;
* the seqs that a subscriber sees strictly increase between two markers, and it sees
  each delivery once, but for those that its full buffer lost before a marker.

Left out are runs in which a subscriber reads while the hub empties its buffer, and
everything after a `resyncAll` that starts the order anew while the workspace has
neither a window nor a subscriber (`dropped_and_reordered`).
-/

namespace Flow.Ports.Realtime

open List Flow.Verified Reorder
open Run (Reaches)

/-! ## The promise -/

/-- What a subscriber can rely on. -/
structure Served (log : List Item) (s : Subscriber) : Prop where
  increasing : Increasing Item.seq Item.marker 0 s.stream
  once : (s.stream.filter fun item => !item.marker).Sublist log
  complete : ∀ item ∈ log.drop s.joined, item ∈ s.stream ∨ item ∈ s.lost
  resynced : ∀ item ∈ s.lost, ∃ m ∈ s.stream, m.marker = true ∧ item.stamp ≤ m.stamp

def Call.deliveries (call : Call) (log : List Item) : Nat :=
  (log.drop call.arrival).countP fun item => item.seq = call.event.seq

def Call.Marked (call : Call) (log : List Item) : Prop :=
  ∃ item ∈ log.drop call.arrival, item.marker = true

/-- What has become of a published event.  One without a seq is delivered by its
own call. -/
inductive Answered (hub : Hub) (call : Call) : Prop where
  | marked : call.Marked hub.log → Answered hub call
  | atOnce : call.event.seq = 0 →
      hub.log[call.arrival]? = some (call.event.item call.arrival) → Answered hub call
  | delivered : 0 < call.event.seq → call.deliveries hub.log = 1 → Answered hub call
  | waits (order : Order) : hub.order = some order → order.timer.isSome = true →
      call.event.seq ∈ order.line.waiting.map Prod.fst → call.deliveries hub.log = 0 →
      Answered hub call

structure Hub.Promise (hub : Hub) : Prop where
  answered : ∀ call ∈ hub.published, call.event.routine = false → Answered hub call
  served : ∀ s ∈ hub.subscribers, Served hub.log s
  /-- Deliveries are told apart. -/
  stamps : hub.log.map Item.stamp = range hub.log.length

/-! ## Offers -/

/-- What holds of a subscriber when no seq above `bound` was delivered since the
last marker. -/
structure Attached (log : List Item) (silent : Bool) (bound : Nat) (s : Subscriber) : Prop where
  room : 0 < s.capacity
  increasing : silent = false →
    Increasing Item.seq Item.marker 0 s.stream ∧
      lastFrom Item.seq Item.marker 0 s.stream ≤ bound
  once : (s.stream.filter fun item => !item.marker).Sublist log
  joined : s.joined ≤ log.length
  complete : ∀ item ∈ log.drop s.joined, item ∈ s.stream ∨ item ∈ s.lost
  stamped : ∀ item ∈ s.stream ++ s.lost, item.stamp ≤ log.length
  resynced : ∀ item ∈ s.lost, ∃ m ∈ s.stream, m.marker = true ∧ item.stamp ≤ m.stamp

theorem snd_picked_of_nil {α : Type} (mask : List Bool) {items : List α}
    (h : (picked mask items).1 = []) : (picked mask items).2 = items := by
  induction items generalizing mask with
  | nil => cases mask <;> rfl
  | cons first rest ih =>
    cases mask with
    | nil => rfl
    | cons take mask =>
      cases take with
      | false => exact congrArg (first :: ·) (ih mask h)
      | true => cases h

theorem Follows.mono {last bound : Nat} {item : Item} (h : last ≤ bound)
    (hfollows : Follows Item.seq Item.marker bound item) :
    Follows Item.seq Item.marker last item := by
  rcases hfollows with hmarker | hzero | hlt
  · exact .inl hmarker
  · exact .inr (.inl hzero)
  · exact .inr (.inr (by omega))

theorem increasing_snoc {stream : List Item} {item : Item} {bound : Nat}
    (h : Increasing Item.seq Item.marker 0 stream ∧ lastFrom Item.seq Item.marker 0 stream ≤ bound)
    (hfollows : Follows Item.seq Item.marker bound item) :
    Increasing Item.seq Item.marker 0 (stream ++ [item]) ∧
      lastFrom Item.seq Item.marker 0 (stream ++ [item]) ≤
        advance Item.seq Item.marker bound item := by
  refine ⟨increasing_append.2 ⟨h.1, Follows.mono h.2 hfollows, trivial⟩, ?_⟩
  rw [lastFrom_append]
  exact advance_mono h.2 item

theorem le_snoc {α : Type} {n : Nat} {l : List α} (h : n ≤ l.length) (x : α) :
    n ≤ (l ++ [x]).length := by
  rw [length_append]
  exact Nat.le_add_right_of_le h

theorem drop_snoc {α : Type} {n : Nat} {l : List α} (h : n ≤ l.length) (x : α) :
    (l ++ [x]).drop n = l.drop n ++ [x] :=
  drop_append_of_le_length h

section Offer

variable {log : List Item} {silent : Bool} {bound : Nat} {s : Subscriber} {item : Item}

theorem Attached.push (h : Attached log silent bound s) (hstamp : item.stamp = log.length)
    (hfollows : Follows Item.seq Item.marker bound item) :
    Attached (log ++ [item]) silent (advance Item.seq Item.marker bound item)
      { s with buffer := s.buffer ++ [item] } := by
  have hstream : ({ s with buffer := s.buffer ++ [item] } : Subscriber).stream =
      s.stream ++ [item] :=
    (append_assoc s.received s.buffer [item]).symm
  refine ⟨h.room, ?_, ?_, le_snoc h.joined _, ?_, ?_, ?_⟩
  · intro hsilent
    rw [hstream]
    exact increasing_snoc (h.increasing hsilent) hfollows
  · rw [hstream, filter_append]
    exact h.once.append filter_sublist
  · intro other hother
    rw [drop_snoc h.joined, mem_append, mem_singleton] at hother
    rw [hstream, mem_append, mem_singleton]
    rcases hother with hold | rfl
    · rcases h.complete other hold with hseen | hlost
      · exact .inl (.inl hseen)
      · exact .inr hlost
    · exact .inl (.inr rfl)
  · intro other hother
    rw [hstream] at hother
    simp only [mem_append, mem_singleton] at hother
    rcases hother with (hseen | rfl) | hlost
    · exact le_snoc (h.stamped other (mem_append_left _ hseen)) _
    · exact le_snoc (Nat.le_of_eq hstamp) _
    · exact le_snoc (h.stamped other (mem_append_right _ hlost)) _
  · intro other hother
    obtain ⟨m, hm, hmarker, hle⟩ := h.resynced other hother
    rw [hstream]
    exact ⟨m, mem_append_left _ hm, hmarker, hle⟩

/-- A delivery to a full buffer: what it held is lost, and a marker takes its place. -/
theorem Attached.overflow (h : Attached log silent bound s) (hstamp : item.stamp = log.length) :
    Attached (log ++ [item]) silent (advance Item.seq Item.marker bound item) { s with
        buffer := [resyncMarker item.id item.stamp]
        lost := s.lost ++ s.buffer ++ [item] } := by
  have hlost : ∀ other ∈ s.lost ++ s.buffer ++ [item], other.stamp ≤ item.stamp := by
    intro other hother
    simp only [mem_append, mem_singleton] at hother
    rcases hother with (hold | hdropped) | rfl
    · have := h.stamped other (mem_append_right _ hold)
      omega
    · have := h.stamped other (mem_append_left _ (mem_append_right _ hdropped))
      omega
    · exact Nat.le_refl _
  refine ⟨h.room, ?_, ?_, le_snoc h.joined _, ?_, ?_, ?_⟩
  · intro hsilent
    have hreceived := (increasing_append.1 (h.increasing hsilent).1).1
    simp only [Subscriber.stream, lastFrom_append]
    exact ⟨increasing_append.2 ⟨hreceived, .inl rfl, trivial⟩, Nat.zero_le _⟩
  · show ((s.received ++ [resyncMarker item.id item.stamp]).filter
      fun item => !item.marker).Sublist (log ++ [item])
    have hsub : s.received.Sublist s.stream := sublist_append_left _ _
    rw [filter_append, show [resyncMarker item.id item.stamp].filter
      (fun item => !item.marker) = [] from rfl, append_nil]
    exact ((hsub.filter _).trans h.once).trans (sublist_append_left _ _)
  · intro other hother
    have hdrop : other ∈ log.drop s.joined ++ [item] := by
      rw [← drop_snoc h.joined]
      exact hother
    simp only [Subscriber.stream, mem_append, mem_singleton] at hdrop ⊢
    rcases hdrop with hold | rfl
    · rcases h.complete other hold with hstream | hgone
      · rcases mem_append.1 hstream with hreceived | hbuffer
        · exact .inl (.inl hreceived)
        · exact .inr (.inl (.inr hbuffer))
      · exact .inr (.inl (.inl hgone))
    · exact .inr (.inr rfl)
  · intro other hother
    simp only [Subscriber.stream, mem_append, mem_singleton] at hother
    rcases hother with (hold | rfl) | hgone
    · exact le_snoc (h.stamped other (mem_append_left _ (mem_append_left _ hold))) _
    · exact le_snoc (Nat.le_of_eq hstamp) _
    · have hle := hlost other (by simpa [or_assoc] using hgone)
      exact le_snoc (hstamp ▸ hle) _
  · intro other hother
    exact ⟨resyncMarker item.id item.stamp, by simp [Subscriber.stream], rfl, hlost other hother⟩

theorem Attached.offer (h : Attached log silent bound s) (hstamp : item.stamp = log.length)
    (hfollows : Follows Item.seq Item.marker bound item) {takes : List Bool}
    (hquiet : s.races takes = false) :
    Attached (log ++ [item]) silent (advance Item.seq Item.marker bound item)
      (s.offer item takes) := by
  unfold Subscriber.offer
  split
  · exact h.push hstamp hfollows
  · rename_i hfull
    have hnone : (picked takes s.buffer).1 = [] := by
      simpa [Subscriber.races, not_lt.1 hfull] using hquiet
    rw [show picked takes s.buffer = ([], s.buffer) from
      Prod.ext hnone (snd_picked_of_nil takes hnone)]
    simpa using h.overflow hstamp

theorem Attached.mono {bound' : Nat} (h : Attached log silent bound s) (hle : bound ≤ bound') :
    Attached log silent bound' s :=
  { h with
    increasing := fun hsilent =>
      ⟨(h.increasing hsilent).1, Nat.le_trans (h.increasing hsilent).2 hle⟩ }

end Offer

/-! ## Deliveries -/

/-- What holds of the log, the window and the subscribers when no seq above
`bound` was delivered since the last marker. -/
structure Steady (hub : Hub) (bound : Nat) : Prop where
  stamps : hub.log.map Item.stamp = range hub.log.length
  increasing : hub.silent = false →
    Increasing Item.seq Item.marker 0 hub.log ∧ lastFrom Item.seq Item.marker 0 hub.log ≤ bound
  window : ∀ items bytes, hub.history = some (items, bytes) → items <:+ hub.log
  subscribers : hub.raced = false → ∀ s ∈ hub.subscribers, Attached hub.log hub.silent bound s

theorem trim_suffix (items : List Item) : ∀ bytes, (trim items bytes).1 <:+ items := by
  induction items with
  | nil => exact fun _ => suffix_refl _
  | cons item rest ih =>
    intro bytes
    rw [trim]
    split
    · exact (ih _).trans (suffix_cons item rest)
    · exact suffix_refl _

section Deliver

variable {hub : Hub} {env : Environment} {bound : Nat} {item : Item}

theorem Steady.mono {bound' : Nat} (h : Steady hub bound) (hle : bound ≤ bound') :
    Steady hub bound' :=
  { h with
    increasing := fun hsilent =>
      ⟨(h.increasing hsilent).1, Nat.le_trans (h.increasing hsilent).2 hle⟩
    subscribers := fun hraced s hs => (h.subscribers hraced s hs).mono hle }

theorem Steady.deliverLocked (h : Steady hub bound) (hstamp : item.stamp = hub.log.length)
    (hfollows : Follows Item.seq Item.marker bound item) :
    Steady (hub.deliverLocked env item) (advance Item.seq Item.marker bound item) := by
  refine ⟨?_, ?_, ?_, ?_⟩
  · show (hub.log ++ [item]).map Item.stamp = range (hub.log ++ [item]).length
    rw [map_append, h.stamps, length_append, length_singleton, range_succ,
      map_singleton, hstamp]
  · intro hsilent
    exact increasing_snoc (h.increasing hsilent) hfollows
  · intro items bytes hhistory
    show items <:+ hub.log ++ [item]
    simp only [Hub.deliverLocked] at hhistory
    split at hhistory
    · cases hhistory
    have hitems : items = (trim _ _).1 := congrArg Prod.fst (Option.some.inj hhistory).symm
    rw [hitems]
    apply (trim_suffix _ _).trans
    cases hold : hub.history with
    | none => exact suffix_append _ _
    | some window =>
      obtain ⟨front, hfront⟩ := h.window window.1 window.2 hold
      exact ⟨front, by rw [← hfront, append_assoc]; rfl⟩
  · intro hraced s hs
    simp only [Hub.deliverLocked, Bool.or_eq_false_iff, any_eq_false] at hraced
    obtain ⟨old, hold, rfl⟩ := mem_map.1 hs
    exact (h.subscribers hraced.1 old hold).offer hstamp hfollows
      (Bool.eq_false_of_not_eq_true (hraced.2 old hold))

theorem stamp_item (event : Event) (stamp : Nat) : (event.item stamp).stamp = stamp := by
  unfold Event.item
  split <;> rfl

theorem advance_item_le {event : Event} (stamp : Nat) {last : Nat} (h : last ≤ event.seq) :
    advance Item.seq Item.marker last (event.item stamp) ≤ event.seq := by
  by_cases hlarge : event.payload > maxPayload
  · simp [Event.item, hlarge, advance]
  · simp only [Event.item, if_neg hlarge, advance, Bool.false_eq_true, if_false]
    split <;> omega

theorem Steady.deliver {event : Event} (h : Steady hub bound) (hseq : bound < event.seq) :
    Steady (hub.deliver env event) event.seq := by
  have hfollows : Follows Item.seq Item.marker bound (event.item hub.log.length) := by
    unfold Event.item
    split
    · exact .inl rfl
    · exact .inr (.inr hseq)
  exact (h.deliverLocked (stamp_item _ _) hfollows).mono (advance_item_le _ (Nat.le_of_lt hseq))

theorem Steady.deliver_zero {event : Event} (h : Steady hub bound) (hseq : event.seq = 0) :
    Steady (hub.deliver env event) bound := by
  have hzero : (event.item hub.log.length).seq = 0 := by
    unfold Event.item
    split
    · rfl
    · exact hseq
  apply (h.deliverLocked (stamp_item _ _) (.inr (.inl hzero))).mono
  unfold advance
  split
  · exact Nat.zero_le _
  · exact Nat.le_refl _

theorem Steady.deliverMarker (h : Steady hub bound) : Steady (hub.deliverMarker env) 0 :=
  h.deliverLocked rfl (.inl rfl)

end Deliver

def itemsFrom : Nat → List (Nat × Event) → List Item
  | _, [] => []
  | stamp, entry :: rest => entry.2.item stamp :: itemsFrom (stamp + 1) rest

def Hub.deliverAll (hub : Hub) (env : Environment) (out : List (Nat × Event)) : Hub :=
  out.foldl (fun hub entry => hub.deliver env entry.2) hub

section DeliverAll

variable (env : Environment)

theorem deliverAll_frame (out : List (Nat × Event)) : ∀ hub : Hub,
    (hub.deliverAll env out).log = hub.log ++ itemsFrom hub.log.length out ∧
      (hub.deliverAll env out).published = hub.published ∧
      (hub.deliverAll env out).silent = hub.silent := by
  induction out with
  | nil => exact fun hub => ⟨(append_nil _).symm, rfl, rfl⟩
  | cons entry rest ih =>
    intro hub
    obtain ⟨hlog, hpublished, hsilent⟩ := ih (hub.deliver env entry.2)
    have hfirst : (hub.deliver env entry.2).log = hub.log ++ [entry.2.item hub.log.length] := rfl
    refine ⟨?_, hpublished, hsilent⟩
    show ((hub.deliver env entry.2).deliverAll env rest).log = _
    rw [hlog, hfirst, append_assoc, length_append]
    rfl

theorem Steady.deliverAll (out : List (Nat × Event)) : ∀ (hub : Hub) (bound top : Nat),
    Steady hub bound → (out.Pairwise fun a b => a.1 < b.1) →
    (∀ entry ∈ out, bound < entry.1 ∧ entry.1 ≤ top ∧ entry.2.seq = entry.1) → bound ≤ top →
    Steady (hub.deliverAll env out) top := by
  induction out with
  | nil => exact fun hub bound top h _ _ hle => h.mono hle
  | cons entry rest ih =>
    intro hub bound top h hpairwise hentries hle
    obtain ⟨hbound, htop, hseq⟩ := hentries entry mem_cons_self
    obtain ⟨hfirst, hrest⟩ := pairwise_cons.1 hpairwise
    have hsteady : Steady (hub.deliver env entry.2) entry.1 := hseq ▸ h.deliver (hseq ▸ hbound)
    refine ih _ entry.1 top hsteady hrest (fun other hother => ?_) htop
    exact ⟨hfirst other hother, (hentries other (mem_cons_of_mem _ hother)).2⟩

end DeliverAll

/-! ## What has become of the calls -/

/-- Where a call with a seq stands: behind the line, or in it. -/
structure Placed (log : List Item) (line : Line Event) (call : Call) : Prop where
  seq : 0 < call.event.seq
  place : call.event.seq ≤ line.last ∧ call.deliveries log = 1 ∨
    call.event.seq ∈ line.waiting.map Prod.fst ∧ call.deliveries log = 0

/-- What has become of a call, by the line of its hub. -/
inductive Tracked (log : List Item) (line : Option (Line Event)) (call : Call) : Prop where
  | marked : call.Marked log → Tracked log line call
  | atOnce : call.event.seq = 0 → log[call.arrival]? = some (call.event.item call.arrival) →
      Tracked log line call
  | placed (l : Line Event) : line = some l → Placed log l call → Tracked log line call

section Tracking

variable {log news : List Item} {line line' : Line Event} {call : Call}

theorem Call.Marked.append (h : call.Marked log) (harrival : call.arrival ≤ log.length) :
    call.Marked (log ++ news) := by
  obtain ⟨item, hitem, hmarker⟩ := h
  exact ⟨item, by rw [drop_append_of_le_length harrival]; simp [hitem], hmarker⟩

variable {item : Item} {out : List (Nat × Event)}

theorem Call.marked_of_mem (harrival : call.arrival ≤ log.length) (hitem : item ∈ news)
    (hmarker : item.marker) : call.Marked (log ++ news) :=
  ⟨item, by rw [drop_append_of_le_length harrival]; simp [hitem], hmarker⟩

theorem Call.deliveries_append (harrival : call.arrival ≤ log.length) :
    call.deliveries (log ++ news) =
      call.deliveries log + news.countP fun item => item.seq = call.event.seq := by
  rw [Call.deliveries, drop_append_of_le_length harrival, countP_append]
  rfl

theorem seq_item {event : Event} {stamp : Nat} (h : (event.item stamp).marker = false) :
    (event.item stamp).seq = event.seq := by
  by_cases hlarge : event.payload > maxPayload
  · simp [Event.item, hlarge] at h
  · simp [Event.item, hlarge]

theorem countP_itemsFrom (n : Nat) (out : List (Nat × Event)) : ∀ stamp,
    (∀ item ∈ itemsFrom stamp out, item.marker = false) → (∀ entry ∈ out, entry.2.seq = entry.1) →
    (itemsFrom stamp out).countP (fun item => item.seq = n) = (out.map Prod.fst).count n := by
  induction out with
  | nil => exact fun _ _ _ => rfl
  | cons entry rest ih =>
    intro stamp hmarkers hseqs
    have hseq : (entry.2.item stamp).seq = entry.1 :=
      (seq_item (hmarkers _ mem_cons_self)).trans (hseqs entry mem_cons_self)
    rw [itemsFrom, countP_cons, ih (stamp + 1)
      (fun item h => hmarkers item (mem_cons_of_mem _ h))
      (fun other h => hseqs other (mem_cons_of_mem _ h)), hseq, map_cons,
      count_cons]
    simp

/-- **A release keeps every call tracked.** -/
theorem Placed.release (h : Placed log line call) (harrival : call.arrival ≤ log.length)
    (hreleases : Releases line out line') (hseqs : ∀ entry ∈ out, entry.2.seq = entry.1) :
    call.Marked (log ++ itemsFrom log.length out) ∨
      Placed (log ++ itemsFrom log.length out) line' call := by
  by_cases hmarkers : ∀ item ∈ itemsFrom log.length out, item.marker = false
  · right
    refine ⟨h.seq, ?_⟩
    rw [Call.deliveries_append harrival, countP_itemsFrom _ out _ hmarkers hseqs]
    have hnodup : (out.map Prod.fst).Nodup :=
      pairwise_map.2 (hreleases.increasing.imp fun hlt => Nat.ne_of_lt hlt)
    rcases h.place with ⟨hle, hone⟩ | ⟨hwaits, hzero⟩
    · left
      have hnot : call.event.seq ∉ out.map Prod.fst := by
        intro hmem
        obtain ⟨entry, hentry, hkey⟩ := mem_map.1 hmem
        have := hreleases.above entry hentry
        omega
      rw [count_eq_zero.2 hnot]
      exact ⟨Nat.le_trans hle hreleases.last, hone⟩
    · obtain ⟨entry, hentry, hkey⟩ := mem_map.1 hwaits
      rcases hreleases.kept entry hentry with hout | hkept
      · left
        rw [count_eq_one_of_mem hnodup (mem_map.2 ⟨entry, hout, hkey⟩), hzero]
        exact ⟨hkey ▸ hreleases.upto entry hout, rfl⟩
      · right
        have hnot : call.event.seq ∉ out.map Prod.fst := by
          intro hmem
          obtain ⟨other, hother, hsame⟩ := mem_map.1 hmem
          have := hreleases.upto other hother
          have := hreleases.ahead.above entry hkept
          omega
        rw [count_eq_zero.2 hnot, hzero]
        exact ⟨mem_map.2 ⟨entry, hkept, hkey⟩, rfl⟩
  · left
    simp only [not_forall, Bool.not_eq_false] at hmarkers
    obtain ⟨item, hitem, hmarker⟩ := hmarkers
    exact Call.marked_of_mem harrival hitem hmarker

theorem Tracked.append {l l' : Option (Line Event)} (h : Tracked log l call)
    (harrival : call.arrival ≤ log.length)
    (hplaced : ∀ line, l = some line → Placed log line call → Tracked (log ++ news) l' call) :
    Tracked (log ++ news) l' call := by
  cases h with
  | marked hmarked => exact .marked (hmarked.append harrival)
  | atOnce hseq hitem =>
    refine .atOnce hseq ?_
    rw [List.getElem?_append_left (List.getElem?_eq_some_iff.1 hitem).1]
    exact hitem
  | placed line hline h => exact hplaced line hline h

theorem Tracked.release (h : Tracked log (some line) call) (harrival : call.arrival ≤ log.length)
    (hreleases : Releases line out line') (hseqs : ∀ entry ∈ out, entry.2.seq = entry.1) :
    Tracked (log ++ itemsFrom log.length out) (some line') call := by
  apply h.append harrival
  rintro _ ⟨⟩ hplaced
  rcases hplaced.release harrival hreleases hseqs with hmarked | hplaced
  · exact .marked hmarked
  · exact .placed line' rfl hplaced

theorem Tracked.snoc {l : Option (Line Event)} (h : Tracked log l call)
    (harrival : call.arrival ≤ log.length) (hitem : item.seq = 0) :
    Tracked (log ++ [item]) l call := by
  refine h.append harrival fun line hline hplaced => ?_
  have hcount : call.deliveries (log ++ [item]) = call.deliveries log := by
    have hne : ¬ item.seq = call.event.seq := by
      have := hplaced.seq
      omega
    rw [Call.deliveries_append harrival]
    simp [hne]
  exact .placed line hline ⟨hplaced.seq, hcount ▸ hplaced.place⟩

end Tracking

/-! ## The invariant -/

structure Order.Sound (order : Order) : Prop where
  settled : order.line.Settled
  last : 0 < order.line.last
  seqs : ∀ entry ∈ order.line.waiting, entry.2.seq = entry.1
  timer : order.line.waiting ≠ [] → order.timer.isSome = true

def Hub.last (hub : Hub) : Nat := (hub.order.map fun order => order.line.last).getD 0

structure Hub.Inv (hub : Hub) : Prop where
  steady : Steady hub hub.last
  order : ∀ order, hub.order = some order → order.Sound
  arrivals : ∀ call ∈ hub.published, call.arrival ≤ hub.log.length
  tracked : hub.silent = false → ∀ call ∈ hub.published, call.event.routine = false →
    Tracked hub.log (hub.order.map Order.line) call

section Steps

variable {hub : Hub} {env : Environment} {order : Order}

variable {skipGap : Bool} {event : Event} {log : List Item}

/-- **A release keeps the invariant**, from a hub whose line may have a next
message waiting. -/
theorem Hub.inv_releaseInOrder (hsteady : Steady hub order.line.last) (hahead : order.line.Ahead)
    (hlast : 0 < order.line.last) (hseqs : ∀ entry ∈ order.line.waiting, entry.2.seq = entry.1)
    (harrivals : ∀ call ∈ hub.published, call.arrival ≤ hub.log.length)
    (htracked : hub.silent = false → ∀ call ∈ hub.published, call.event.routine = false →
      Tracked hub.log (some order.line) call) : (hub.releaseInOrder env order skipGap).Inv := by
  let released := release order.line.waiting.length order.line skipGap
  obtain ⟨hreleases, hwaited, hsettles⟩ : Releases order.line released.1 released.2 ∧ _ :=
    release_spec _ _ _ hahead
  have hsettled : released.2.Settled := hsettles (Nat.le_refl _)
  have hout : ∀ entry ∈ released.1, entry.2.seq = entry.1 := fun entry h =>
    hseqs entry (hwaited entry (.inl h))
  have hwaiting : ∀ entry ∈ released.2.waiting, entry.2.seq = entry.1 := fun entry h =>
    hseqs entry (hwaited entry (.inr h))
  obtain ⟨hlog, hpublished, hsilent⟩ := deliverAll_frame env released.1 hub
  have hdelivered : Steady (hub.deliverAll env released.1) released.2.last :=
    Steady.deliverAll env released.1 hub _ _ hsteady hreleases.increasing
      (fun entry h => ⟨hreleases.above entry h, hreleases.upto entry h, hout entry h⟩)
      hreleases.last
  -- the timer and its number do not matter for what was delivered
  have hkeep : ∀ (timer : Option Nat) (next : Nat),
      (released.2.waiting ≠ [] → timer.isSome = true) →
      ({ hub.deliverAll env released.1 with
        order := some ⟨released.2, timer⟩, nextTimer := next } : Hub).Inv := by
    intro timer next htimer
    refine ⟨{ hdelivered with },
      ?_, ?_, ?_⟩
    · intro order' horder
      cases horder
      exact ⟨hsettled, Nat.lt_of_lt_of_le hlast hreleases.last, hwaiting, htimer⟩
    · intro call hcall
      have := harrivals call (hpublished ▸ hcall)
      rw [hlog, length_append]
      omega
    · intro hquiet call hcall hroutine
      have hcall : call ∈ hub.published := hpublished ▸ hcall
      rw [hlog]
      exact (htracked (hsilent ▸ hquiet) call hcall hroutine).release (harrivals call hcall)
        hreleases hout
  show Hub.Inv (if released.2.waiting ≠ [] ∧ _ then _ else _)
  split
  · exact hkeep _ _ fun _ => rfl
  · rename_i harmed
    refine hkeep _ _ fun hne => ?_
    rw [not_and] at harmed
    exact Option.isSome_iff_ne_none.2 (harmed hne)

theorem Hub.Inv.releaseInOrder (h : hub.Inv) (horder : hub.order = some order)
    (timer : Option Nat) :
    (hub.releaseInOrder env { order with timer } skipGap).Inv := by
  have hsound := h.order order horder
  refine Hub.inv_releaseInOrder ?_ hsound.settled.toAhead hsound.last hsound.seqs h.arrivals ?_
  · have hsteady := h.steady
    rw [Hub.last, horder] at hsteady
    exact hsteady
  · have htracked := h.tracked
    rw [horder] at htracked
    exact htracked

theorem Hub.Inv.fire (h : hub.Inv) (timer : Nat) : (hub.fire env timer).Inv := by
  unfold Hub.fire
  split
  · exact h
  · rename_i order horder
    split
    · exact h.releaseInOrder horder none
    · exact h

theorem Hub.Inv.releaseAll (fuel : Nat) : ∀ hub : Hub, hub.Inv → (hub.releaseAll env fuel).Inv := by
  induction fuel with
  | zero => exact fun _ h => h
  | succ fuel ih =>
    intro hub h
    rw [Hub.releaseAll]
    split
    · exact h
    · rename_i order horder
      split
      · exact h
      · exact ih _ (h.releaseInOrder horder order.timer)

def Hub.record (hub : Hub) (event : Event) : Hub :=
  { hub with published := hub.published ++ [⟨event, hub.log.length⟩] }

theorem mem_record {call : Call} (h : call ∈ (hub.record event).published) :
    call ∈ hub.published ∨ call = ⟨event, hub.log.length⟩ := by
  rcases mem_append.1 h with hold | hnew
  · exact .inl hold
  · exact .inr (mem_singleton.1 hnew)

theorem Hub.Inv.arrivals_record (h : hub.Inv) :
    ∀ call ∈ (hub.record event).published, call.arrival ≤ hub.log.length := by
  intro call hcall
  rcases mem_record hcall with hold | rfl
  · exact h.arrivals call hold
  · exact Nat.le_refl _

theorem tracked_delivered {line : Line Event} (hseq : 0 < event.seq)
    (hlast : line.last = event.seq) :
    Tracked (log ++ [event.item log.length]) (some line) ⟨event, log.length⟩ := by
  have hdrop : (log ++ [event.item log.length]).drop log.length = [event.item log.length] :=
    drop_left
  cases hmarker : (event.item log.length).marker with
  | true => exact .marked ⟨event.item log.length, by simp, hmarker⟩
  | false =>
    refine .placed line rfl ⟨hseq, .inl ⟨Nat.le_of_eq hlast.symm, ?_⟩⟩
    simp [Call.deliveries, seq_item hmarker]

/-- The event that is next goes out, and those behind it. -/
theorem Hub.Inv.publishNext {order : Order} (h : hub.Inv) (hseq : 0 < event.seq)
    (hlast : hub.last = order.line.last) (hsettled : order.line.Settled)
    (hseqs : ∀ entry ∈ order.line.waiting, entry.2.seq = entry.1)
    (htracked : hub.silent = false → ∀ call ∈ hub.published, call.event.routine = false →
      Tracked hub.log (some order.line) call)
    (hnext : order.line.last = 0 ∧ order.line.waiting = [] ∨ event.seq = order.line.last + 1) :
    (((hub.record event).deliver env event).releaseInOrder env
      ⟨⟨event.seq, order.line.waiting⟩, order.timer⟩ false).Inv := by
  have habove : order.line.last < event.seq := by omega
  have hahead : (⟨event.seq, order.line.waiting⟩ : Line Event).Ahead := by
    refine ⟨hsettled.nodup, fun entry hentry => ?_⟩
    show event.seq < entry.1
    rcases hnext with ⟨-, hnil⟩ | hnext
    · rw [hnil] at hentry
      cases hentry
    · have := hsettled.above entry hentry
      have := hsettled.gap entry hentry
      omega
  have hreleases : Releases order.line [(event.seq, event)] ⟨event.seq, order.line.waiting⟩ := by
    refine ⟨pairwise_singleton _ _, ?_, ?_, Nat.le_of_lt habove, fun _ h => .inr h, hahead⟩
    · simpa using habove
    · simp
  have hsteady : Steady (hub.record event) order.line.last :=
    hlast ▸ { h.steady with }
  refine Hub.inv_releaseInOrder (hsteady.deliver habove) hahead hseq hseqs ?_ ?_
  · exact fun call hcall => le_snoc (h.arrivals_record call hcall) _
  · intro hsilent call hcall hroutine
    rcases mem_record hcall with hold | rfl
    · exact (htracked hsilent call hold hroutine).release (h.arrivals call hold) hreleases (by simp)
    · exact tracked_delivered hseq rfl

theorem Hub.Inv.publishLate (h : hub.Inv) : ((hub.record event).deliverMarker env).Inv := by
  have hsteady : Steady (hub.record event) hub.last :=
    { h.steady with }
  refine ⟨(hsteady.deliverMarker).mono (Nat.zero_le _), h.order,
    fun call hcall => le_snoc (h.arrivals_record call hcall) _, fun _ call hcall _ => ?_⟩
  exact .marked (Call.marked_of_mem (h.arrivals_record call hcall) mem_cons_self rfl)

theorem Hub.Inv.publishEarly {order : Order} (h : hub.Inv) (horder : hub.order = some order)
    (hseq : order.line.last + 1 < event.seq) :
    ((hub.record event).hold order.timer (order.line.wait event.seq event)).Inv := by
  suffices hany : ∀ timer next, ({ hub.record event with
      order := some ⟨order.line.wait event.seq event, some timer⟩, nextTimer := next } : Hub).Inv by
    unfold Hub.hold
    split
    · exact hany _ _
    · exact hany _ _
  intro timer next
  have hsound := h.order order horder
  have hsteady := h.steady
  rw [Hub.last, horder] at hsteady
  refine ⟨{ hsteady with }, ?_,
    h.arrivals_record, ?_⟩
  · intro order' horder'
    cases horder'
    refine ⟨hsound.settled.wait hseq event, hsound.last, ?_, fun _ => rfl⟩
    intro entry hentry
    rcases mem_append.1 hentry with hold | hnew
    · exact hsound.seqs entry (mem_without.1 hold).1
    · rw [mem_singleton.1 hnew]
  · intro hsilent call hcall hroutine
    rcases mem_record hcall with hold | rfl
    · have htracked := h.tracked hsilent call hold hroutine
      rw [horder] at htracked
      cases htracked with
      | marked hmarked => exact .marked hmarked
      | atOnce hzero hitem => exact .atOnce hzero hitem
      | placed line hline hplaced =>
        cases hline
        refine .placed _ rfl ⟨hplaced.seq, ?_⟩
        rcases hplaced.place with hdone | ⟨hwaits, hzero⟩
        · exact .inl hdone
        · refine .inr ⟨?_, hzero⟩
          obtain ⟨entry, hentry, hkey⟩ := mem_map.1 hwaits
          -- a message with the same seq takes its place
          by_cases hsame : entry.1 = event.seq
          · exact mem_map.2 ⟨(event.seq, event), mem_append_right _ (by simp),
              hsame.symm.trans hkey⟩
          · exact mem_map.2
              ⟨entry, mem_append_left _ (mem_without.2 ⟨hentry, hsame⟩), hkey⟩
    · refine .placed _ rfl ⟨by show 0 < event.seq; omega, .inr ⟨?_, ?_⟩⟩
      · exact mem_map.2 ⟨(event.seq, event), mem_append_right _ (by simp), rfl⟩
      · show ((hub.log.drop hub.log.length).countP _) = 0
        simp

theorem Hub.Inv.publishInOrder (h : hub.Inv) (hseq : 0 < event.seq) :
    ((hub.record event).publishInOrder env event).Inv := by
  show ((hub.record event).publishTo env (hub.order.getD newOrder) event).Inv
  cases horder : hub.order with
  | none =>
    -- the first seq of an order is the next one whatever it is
    rw [Hub.publishTo, if_pos (.inl rfl)]
    refine h.publishNext hseq (by simp [Hub.last, horder, newOrder]) ⟨⟨.nil, by simp [newOrder]⟩,
      by simp [newOrder]⟩ (by simp [newOrder]) ?_ (.inl ⟨rfl, rfl⟩)
    intro hsilent call hcall hroutine
    have htracked := h.tracked hsilent call hcall hroutine
    rw [horder] at htracked
    cases htracked with
    | marked hmarked => exact .marked hmarked
    | atOnce hzero hitem => exact .atOnce hzero hitem
    | placed line hline _ => cases hline
  | some order =>
    have hsound := h.order order horder
    rw [Option.getD_some, Hub.publishTo]
    split
    · have hnext : event.seq = order.line.last + 1 := by
        have := hsound.last
        omega
      refine h.publishNext hseq (by simp [Hub.last, horder]) hsound.settled hsound.seqs ?_
        (.inr hnext)
      intro hsilent call hcall hroutine
      have htracked := h.tracked hsilent call hcall hroutine
      rw [horder] at htracked
      exact htracked
    · split
      · exact h.publishLate
      · exact h.publishEarly horder (by omega)

theorem Hub.Inv.publish (h : hub.Inv) : (hub.publish env event).Inv := by
  show Hub.Inv (if event.routine then hub.record event else _)
  split
  · rename_i hroutine
    refine ⟨{ h.steady with }, h.order,
      h.arrivals_record, ?_⟩
    intro hsilent call hcall hcallRoutine
    rcases mem_record hcall with hold | rfl
    · exact h.tracked hsilent call hold hcallRoutine
    · rw [show event.routine = false from hcallRoutine] at hroutine
      cases hroutine
  · split
    · rename_i hseq
      exact h.publishInOrder hseq
    · have hzero : event.seq = 0 := by omega
      have hsteady : Steady (hub.record event) hub.last :=
        { h.steady with }
      have hitem : (event.item hub.log.length).seq = 0 := by
        by_cases hlarge : event.payload > maxPayload <;> simp [Event.item, hlarge, hzero]
      refine ⟨hsteady.deliver_zero hzero, h.order,
        fun call hcall => le_snoc (h.arrivals_record call hcall) _, ?_⟩
      intro hsilent call hcall hroutine
      show Tracked (hub.log ++ [event.item hub.log.length]) _ call
      rcases mem_record hcall with hold | rfl
      · exact (h.tracked hsilent call hold hroutine).snoc (h.arrivals call hold) hitem
      · exact .atOnce hzero (by simp)

/-- Waiting events go out, the order starts anew, and a marker tells so. -/
theorem Hub.Inv.resyncAll (h : hub.Inv) : (hub.resyncAll env).Inv := by
  have hreleased : (hub.releaseAll env hub.waiting).Inv := Hub.Inv.releaseAll hub.waiting hub h
  show Hub.Inv (if hub.told = true then _ else _)
  have hsteady := hreleased.steady
  split
  · have hcleared : Steady ({ hub.releaseAll env hub.waiting with order := none } : Hub)
        (hub.releaseAll env hub.waiting).last :=
      { hsteady with }
    refine ⟨hcleared.deliverMarker, nofun,
      fun call hcall => le_snoc (hreleased.arrivals call hcall) _, fun _ call hcall _ => ?_⟩
    exact .marked (Call.marked_of_mem (hreleased.arrivals call hcall) List.mem_cons_self rfl)
  · cases horder : hub.order with
    | none =>
      have hsame : hub.releaseAll env hub.waiting = hub := by
        simp [Hub.waiting, horder, Hub.releaseAll]
      have hcleared : ({ hub with order := none, silent := hub.silent || false } : Hub) = hub := by
        rw [Bool.or_false, ← horder]
      rw [hsame, Option.isSome_none, hcleared]
      exact h
    | some order =>
      -- after an order that started anew in silence nothing is said of its seqs
      have hsilent : ∀ before : Bool, (before || (some order).isSome) = false → False := by simp
      refine ⟨⟨hsteady.stamps, fun h => (hsilent _ h).elim, hsteady.window, fun hraced s hs => ?_⟩,
        nofun, hreleased.arrivals, fun h => (hsilent _ h).elim⟩
      exact { hsteady.subscribers hraced s hs with increasing := fun h => (hsilent _ h).elim }

theorem Hub.Inv.join {buffer : List Item} {replayed : Nat} (h : hub.Inv)
    (hbuffer : buffer <:+ hub.log ∨ ∃ id, buffer = [resyncMarker id hub.log.length]) :
    (hub.join buffer replayed).Inv := by
  refine ⟨⟨h.steady.stamps, h.steady.increasing, h.steady.window, ?_⟩, h.order, h.arrivals,
    h.tracked⟩
  intro hraced s hs
  rcases mem_append.1 hs with hold | hnew
  · exact h.steady.subscribers hraced s hold
  · rw [mem_singleton] at hnew
    subst hnew
    refine ⟨by show 0 < 64 + replayed; omega, ?_, ?_, Nat.le_refl _, ?_, ?_, ?_⟩
    · intro hsilent
      rcases hbuffer with ⟨front, hfront⟩ | ⟨id, rfl⟩
      · have hlog := h.steady.increasing hsilent
        rw [← hfront] at hlog
        exact ⟨(increasing_append.1 hlog.1).2.mono (Nat.zero_le _),
          Nat.le_trans (lastFrom_le_append front buffer) hlog.2⟩
      · exact ⟨⟨.inl rfl, trivial⟩, Nat.zero_le _⟩
    · show (([] ++ buffer).filter fun item : Item => !item.marker).Sublist hub.log
      rcases hbuffer with hsuffix | ⟨id, rfl⟩
      · exact filter_sublist.trans hsuffix.sublist
      · exact nil_sublist _
    · intro item hitem
      rw [show (hub.join buffer replayed).log.drop hub.log.length = [] from drop_length] at hitem
      cases hitem
    · intro item hitem
      show item.stamp ≤ hub.log.length
      have hitem : item ∈ buffer := by simpa [Subscriber.stream] using hitem
      rcases hbuffer with hsuffix | ⟨id, rfl⟩
      · have hmem : item.stamp ∈ hub.log.map Item.stamp :=
          mem_map.2 ⟨item, hsuffix.subset hitem, rfl⟩
        rw [h.steady.stamps, mem_range] at hmem
        omega
      · rw [mem_singleton.1 hitem]
        exact Nat.le_refl _
    · intro item hitem
      cases hitem

theorem Hub.Inv.subscribeSince (h : hub.Inv) (since : Since) (fresh : Nat) :
    (hub.subscribeSince since fresh).Inv := by
  have hwindow : (hub.history.getD ([], 0)).1 <:+ hub.log := by
    cases hhistory : hub.history with
    | none => exact nil_suffix
    | some window => exact h.steady.window window.1 window.2 hhistory
  unfold Hub.subscribeSince
  split
  · rename_i events hreplay
    obtain ⟨index, -, rfl⟩ := Option.map_eq_some_iff.1 hreplay
    exact h.join (.inl ((drop_suffix _ _).trans hwindow))
  · split
    · exact h.join (.inl nil_suffix)
    · exact h.join (.inr ⟨fresh, rfl⟩)

theorem Attached.receive {silent : Bool} {bound : Nat} {s : Subscriber}
    (h : Attached log silent bound s) : Attached log silent bound s.receive := by
  unfold Subscriber.receive
  split
  · exact h
  · rename_i item rest hbuffer
    have hstream : s.stream = s.received ++ [item] ++ rest := by simp [Subscriber.stream, hbuffer]
    obtain ⟨hroom, hincreasing, honce, hjoined, hcomplete, hstamped, hresynced⟩ := h
    rw [hstream] at hincreasing honce hcomplete hstamped hresynced
    exact ⟨hroom, hincreasing, honce, hjoined, hcomplete, hstamped, hresynced⟩

/-- What a step changes only in the buffers keeps the invariant. -/
theorem Hub.Inv.subscribers {subscribers : List Subscriber} (h : hub.Inv)
    (hall : hub.raced = false → ∀ s ∈ subscribers, Attached hub.log hub.silent hub.last s) :
    ({ hub with subscribers } : Hub).Inv :=
  ⟨⟨h.steady.stamps, h.steady.increasing, h.steady.window, hall⟩, h.order, h.arrivals, h.tracked⟩

/-- **Every step keeps the invariant.** -/
theorem Hub.Inv.step {label : Label} {hub' : Hub} (h : hub.Inv)
    (hstep : hub.step label = some hub') : hub'.Inv := by
  cases label with
  | publish event env => cases hstep; exact h.publish
  | fire timer env => cases hstep; exact h.fire timer
  | resyncAll env => cases hstep; exact h.resyncAll
  | evict =>
    cases hstep
    exact ⟨⟨h.steady.stamps, h.steady.increasing, nofun,
      h.steady.subscribers⟩, h.order, h.arrivals, h.tracked⟩
  | subscribe => cases hstep; exact h.join (.inl nil_suffix)
  | subscribeSince since fresh => cases hstep; exact h.subscribeSince since fresh
  | receive id =>
    cases hstep
    refine h.subscribers fun hraced s hs => ?_
    obtain ⟨old, hold, rfl⟩ := mem_map.1 hs
    split
    · exact (h.steady.subscribers hraced old hold).receive
    · exact h.steady.subscribers hraced old hold
  | unsubscribe id =>
    cases hstep
    exact h.subscribers fun hraced s hs => h.steady.subscribers hraced s (mem_filter.1 hs).1

end Steps

theorem Hub.inv_empty : Hub.empty.Inv :=
  ⟨⟨rfl, fun _ => ⟨trivial, Nat.zero_le _⟩, nofun, nofun⟩, nofun, nofun, fun _ => nofun⟩

theorem Hub.Inv.promise {hub : Hub} (h : hub.Inv) (hsilent : hub.silent = false)
    (hraced : hub.raced = false) : hub.Promise := by
  refine ⟨?_, ?_, h.steady.stamps⟩
  · intro call hcall hroutine
    cases h.tracked hsilent call hcall hroutine with
    | marked hmarked => exact .marked hmarked
    | atOnce hseq hitem => exact .atOnce hseq hitem
    | placed line hline hplaced =>
      obtain ⟨order, horder, rfl⟩ := Option.map_eq_some_iff.1 hline
      rcases hplaced.place with ⟨-, hone⟩ | ⟨hwaits, hzero⟩
      · exact .delivered hplaced.seq hone
      · have hne : order.line.waiting ≠ [] := by
          intro hnil
          simp [hnil] at hwaits
        exact .waits order horder ((h.order order horder).timer hne) hwaits hzero
  · intro s hs
    have hattached := h.steady.subscribers hraced s hs
    exact ⟨(hattached.increasing hsilent).1, hattached.once, hattached.complete,
      hattached.resynced⟩

/-- **Pushed changes are delivered in order or answered by a resync**, in every run
of the hub that was not started anew in silence, and in which no subscriber reads while the
hub empties its buffer. -/
theorem promise_of_reaches {hub : Hub} (hrun : Reaches Hub.step Run.Unrestricted Hub.empty hub)
    (hsilent : hub.silent = false) (hraced : hub.raced = false) : hub.Promise :=
  (hrun.invariant (P := Hub.Inv) (fun _ _ _ h _ hstep => h.step hstep) Hub.inv_empty).promise
    hsilent hraced

/-- Nobody reads during a delivery and no window is taken away. -/
def quiet (fresh : Nat) : Environment := ⟨fun _ _ => [], fun _ => false, fresh⟩

/-- Every delivery ends with the window taken away. -/
def evicting (fresh : Nat) : Environment := ⟨fun _ _ => [], fun _ => true, fresh⟩

def change (seq : Nat) : Event := ⟨seq, seq, 10, false⟩

/-- A gap that is given up, an event that comes after it, and a new subscriber that
resumes. -/
theorem promise_after_gap :
    ∃ hub, (Reaches Hub.step Run.Unrestricted Hub.empty hub ∧
      (hub.silent = false ∧ hub.raced = false) ∧ hub.log.map (fun item => (item.seq, item.marker)) =
        [(1, false), (3, false), (4, false), (0, true), (5, false)] ∧
      hub.subscribers.map (fun s => s.stream.map Item.seq) =
        [[1, 3, 4, 0, 5], [4, 0, 5]]) ∧ hub.Promise := by
  refine (exists_congr fun _ => and_assoc).mpr <| Run.exists_reaches_and
    [.subscribe, .publish (change 1) (quiet 10), .publish (change 4) (quiet 10),
      .publish (change 3) (quiet 10), .fire 0 (quiet 10), .publish (change 2) (quiet 11),
      .subscribeSince (.seq 3) 12, .publish (change 5) (quiet 10), .receive 1] Hub.empty
    (by decide) fun hub hrun hfacts => ?_
  exact promise_of_reaches hrun hfacts.1.1 hfacts.1.2

/-- A routine credential event is dropped; and in a workspace with no window and no subscriber,
`resyncAll` releases what waits and starts the order anew without a marker, so that a client
that resumes sees a later seq before an earlier one. -/
theorem dropped_and_reordered :
    (∃ hub, Reaches Hub.step Run.Unrestricted Hub.empty hub ∧
      (hub.published.map (fun call => call.event.seq) = [1] ∧ hub.log = [] ∧
        hub.order.isNone = true)) ∧
      ∃ hub, Reaches Hub.step Run.Unrestricted Hub.empty hub ∧
        (hub.log.all (fun item => !item.marker) = true ∧
          hub.subscribers.map (fun s => s.stream.map Item.seq) = [[10, 7]]) :=
  ⟨Run.exists_reaches [.publish ⟨1, 1, 10, true⟩ (quiet 10)] _ (by decide),
    Run.exists_reaches
      [.publish (change 1) (evicting 10), .publish (change 9) (quiet 10),
        .publish (change 10) (quiet 10), .resyncAll (quiet 11), .publish (change 7) (quiet 10),
        .subscribeSince (.seq 9) 12] _ (by decide)⟩

end Flow.Ports.Realtime
