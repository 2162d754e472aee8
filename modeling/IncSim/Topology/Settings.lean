import IncSim.Topology.Reader

/-!
# The settings of the links

`ApplySettings` installs the links one after the other with one `PointToPointHelper`, which keeps what
it was told before; `ApplyOspfMetric` gives the faces of a link its metric. The branch of
`ApplySettings` that an exception of `SetQueue` leads to is left out: ns-3 aborts there.

* `ErrorModel`, `PointToPointHelper`: ns-3 and the tokenizer, with what their documentation says.
* `Installed`, `applyLink`, `applySettings`: what a link gets; none where ns-3 aborts.
* `Told`, `Told.set`: the settings of a helper; **`applySettings_eq`**: the loop on them.
* `lastSet`: the last setting of an attribute; **`getElem?_installAll`**: what is installed.
* **`settings_own_iff`**: every link has its own settings exactly when ns-3 takes all texts and no link
  leaves out what an earlier one has set.
* `lexicalCast`, `applyOspfMetric`: the metrics.
-/

namespace IncSim

namespace Topology

/-! ## What ns-3 does -/

/-- What the reader makes an error model from. -/
structure ErrorModel where
  typeId : Str
  attributes : List (Str × Str)
  deriving DecidableEq

/-- `PointToPointHelper` of ns-3, whose objects are of type `P`, and what the reader uses for error
models. -/
class PointToPointHelper (P : Type) where
  /-- a helper that has been told nothing -/
  fresh : P
  /-- `SetQueue ("ns3::DropTailQueue<Packet>", "MaxSize", ...)`; none where ns-3 aborts -/
  setQueue : P → Str → Option P
  /-- `SetDeviceAttribute ("DataRate", ...)` -/
  setDeviceAttribute : P → Str → Option P
  /-- `SetChannelAttribute ("Delay", ...)` -/
  setChannelAttribute : P → Str → Option P
  /-- the setting that `Install` creates the queues with; none where it takes the default -/
  queueMaxSize : P → Option Str
  /-- the setting that `Install` creates the devices with -/
  dataRate : P → Option Str
  /-- the setting that `Install` creates the channel with -/
  delay : P → Option Str
  /-- the text can be read as a `QueueSize` -/
  isQueueSize : Str → Bool
  /-- the text can be read as a `DataRate` -/
  isDataRate : Str → Bool
  /-- the text can be read as a `Time` -/
  isTime : Str → Bool
  /-- the tokens of `boost::tokenizer`, for the separator; none where it throws -/
  tokens : Char → Str → Option (List Str)
  /-- `ObjectFactory` makes the error model -/
  creates : ErrorModel → Bool

/-- A link with what its devices, queues and channel are created with; nothing where ns-3 takes its
default. -/
structure Installed where
  source : Str
  target : Str
  queueMaxSize : Option Str
  dataRate : Option Str
  delay : Option Str
  /-- what the error models of both devices are made from -/
  receiveErrorModel : Option ErrorModel
  deriving DecidableEq

/-- What a `PointToPointHelper` has been told. -/
structure Told where
  queueMaxSize : Option Str
  dataRate : Option Str
  delay : Option Str

def Told.setQueue (p2p : Told) (text : Str) : Told := { p2p with queueMaxSize := some text }

def Told.setDeviceAttribute (p2p : Told) (text : Str) : Told := { p2p with dataRate := some text }

def Told.setChannelAttribute (p2p : Told) (text : Str) : Told := { p2p with delay := some text }

/-- What the helper has been told. -/
def PointToPointHelper.told {P : Type} [PointToPointHelper P] (p2p : P) : Told :=
  ⟨queueMaxSize p2p, dataRate p2p, delay p2p⟩

open PointToPointHelper in
/-- The documentation of the helper: a text that can be read becomes the setting of its attribute, and
nothing else changes; on another text ns-3 aborts. -/
structure PointToPointHelper.Documented (P : Type) [PointToPointHelper P] : Prop where
  told_fresh : told (fresh : P) = ⟨none, none, none⟩
  setQueue : ∀ (p2p : P) text, (setQueue p2p text).map told =
    if isQueueSize P text then some ((told p2p).setQueue text) else none
  setDeviceAttribute : ∀ (p2p : P) text, (setDeviceAttribute p2p text).map told =
    if isDataRate P text then some ((told p2p).setDeviceAttribute text) else none
  setChannelAttribute : ∀ (p2p : P) text, (setChannelAttribute p2p text).map told =
    if isTime P text then some ((told p2p).setChannelAttribute text) else none

/-- Numbers of 16 bits are read in front of their units. -/
structure PointToPointHelper.ReadsUnits (P : Type) [PointToPointHelper P] : Prop where
  isQueueSize : ∀ n < 2 ^ 16, isQueueSize P (Text.decimal n ++ "p".toList) = true
  isDataRate : ∀ n < 2 ^ 16, isDataRate P (Text.decimal n ++ "Mbps".toList) = true
  isTime : ∀ n < 2 ^ 16, isTime P (Text.decimal n ++ "ms".toList) = true

open PointToPointHelper Extract

/-! ## `ApplySettings` -/

/-- `GetAttributeFailSafe`: a column that is not empty. -/
def failSafe (column : Str) : Option Str := if column = [] then none else some column

theorem mem_failSafe {column text : Str} : text ∈ failSafe column ↔ column ≠ [] ∧ column = text := by
  unfold failSafe
  split_ifs with h
  · exact iff_of_false nofun fun hne => hne.1 h
  · rw [Option.mem_some_iff, and_iff_right h]

/-- `maxPackets + "p"`. -/
def maxSize (maxPackets : Str) : Str := maxPackets ++ ['p']

section Apply

variable (P : Type) [PointToPointHelper P]

/-- The attribute that a token sets; a token without a value is left out. -/
def addAttribute (attributes : List (Str × Str)) (token : Str) : Option (List (Str × Str)) :=
  match tokens P '=' token with
  | some (name :: value :: _) => some (attributes ++ [(name, value)])
  | some [_] => some attributes
  | _ => none

/-- What the error models are made from. -/
def errorModel (value : Str) : Option ErrorModel :=
  match tokens P ',' value with
  | some (typeId :: tok) => (tok.foldlM (addAttribute P) []).map (ErrorModel.mk typeId)
  | _ => none

/-- The error models of a link, if its loss rate is given. -/
def receiveErrorModel (link : Link) : Option (Option ErrorModel) :=
  match failSafe link.lossRate with
  | none => some none
  | some value => ((errorModel P value).filter (creates P)).map some

/-- A setting that is told to the helper if it is given. -/
def setGiven {P : Type} (set : P → Str → Option P) (p2p : P) : Option Str → Option P
  | none => some p2p
  | some text => set p2p text

/-- Round `link` of the loop of `ApplySettings`: the settings are told to the helper, which installs
the link. -/
def applyLink {P : Type} [PointToPointHelper P] (p2p : P) (link : Link) : Option (P × Installed) := do
  let p2p ← setGiven setQueue p2p ((failSafe link.maxPackets).map maxSize)
  let p2p ← setDeviceAttribute p2p link.dataRate
  let p2p ← setGiven setChannelAttribute p2p (failSafe link.delay)
  let receiveErrorModel ← receiveErrorModel P link
  some (p2p, ⟨link.source, link.target, queueMaxSize p2p, dataRate p2p, delay p2p, receiveErrorModel⟩)

/-- The loop of `ApplySettings`. -/
def applyLoop {P : Type} [PointToPointHelper P] (p2p : P) : List Link → Option (List Installed)
  | [] => some []
  | link :: links => do
    let (p2p, installed) ← applyLink p2p link
    let rest ← applyLoop p2p links
    some (installed :: rest)

/-- `ApplySettings`; none where ns-3 aborts. -/
def applySettings (links : List Link) : Option (List Installed) := applyLoop (fresh : P) links

/-- A link with its own settings: it is the first that its helper installs. -/
def own (link : Link) : Option Installed := (applyLink (fresh : P) link).map Prod.snd

/-! ## The settings of a helper -/

/-- The settings of a link are told to a helper. -/
def Told.set (p2p : Told) (link : Link) : Told where
  queueMaxSize := ((failSafe link.maxPackets).map maxSize).or p2p.queueMaxSize
  dataRate := some link.dataRate
  delay := (failSafe link.delay).or p2p.delay

/-- What a link is installed with. -/
def Told.install (p2p : Told) (link : Link) : Installed where
  source := link.source
  target := link.target
  queueMaxSize := p2p.queueMaxSize
  dataRate := p2p.dataRate
  delay := p2p.delay
  receiveErrorModel := (receiveErrorModel P link).join

variable {P} {links : List Link} {link : Link} {i : ℕ} {column : Link → Str}

/-- ns-3 takes all texts of the link. -/
@[mk_iff]
structure Accepted (P : Type) [PointToPointHelper P] (link : Link) : Prop where
  maxPackets : ∀ text ∈ failSafe link.maxPackets, isQueueSize P (maxSize text) = true
  dataRate : isDataRate P link.dataRate = true
  delay : ∀ text ∈ failSafe link.delay, isTime P text = true
  lossRate : (receiveErrorModel P link).isSome = true

instance : DecidablePred (Accepted P) := fun link => decidable_of_iff _ (accepted_iff P link).symm

/-- **A setting is told** if it is given and can be read. -/
theorem map_told_setGiven {set : P → Str → Option P} {valid : Str → Bool} {put : Told → Str → Told}
    (hset : ∀ p2p text,
      (set p2p text).map told = if valid text then some (put (told p2p) text) else none)
    (p2p : P) (given : Option Str) : (setGiven set p2p given).map told =
      if ∀ text ∈ given, valid text = true then some (given.elim (told p2p) (put (told p2p))) else none := by
  cases given with
  | none => rw [if_pos nofun]; rfl
  | some text =>
    simp only [Option.mem_some_iff, forall_eq']
    exact hset p2p text

/-- **A round of the loop**: all texts are taken, and the link gets what the helper has been told. -/
theorem applyLink_some (h : Documented P) {p2p : P} {q : P × Installed}
    (hl : applyLink p2p link = some q) : Accepted P link ∧ told q.1 = (told p2p).set link ∧
      q.2 = ((told p2p).set link).install P link := by
  obtain ⟨p₁, h₁, hl⟩ := Option.bind_eq_some_iff.mp hl
  obtain ⟨p₂, h₂, hl⟩ := Option.bind_eq_some_iff.mp hl
  obtain ⟨p₃, h₃, hl⟩ := Option.bind_eq_some_iff.mp hl
  obtain ⟨model, hmodel, hl⟩ := Option.bind_eq_some_iff.mp hl
  cases hl
  have hqueue := map_told_setGiven h.setQueue p2p ((failSafe link.maxPackets).map maxSize)
  have hrate := h.setDeviceAttribute p₁ link.dataRate
  have hdelay := map_told_setGiven h.setChannelAttribute p₂ (failSafe link.delay)
  rw [h₁, Option.map_some] at hqueue
  rw [h₂, Option.map_some] at hrate
  rw [h₃, Option.map_some] at hdelay
  split_ifs at hqueue hrate hdelay with hq hr hd
  have htold : told p₃ = (told p2p).set link := by
    rw [Option.some.inj hdelay, Option.some.inj hrate, Option.some.inj hqueue, Told.set]
    cases failSafe link.maxPackets <;> cases failSafe link.delay <;> rfl
  refine ⟨⟨?_, hr, hd, by rw [hmodel]; rfl⟩, htold, ?_⟩
  · intro text htext
    exact hq _ (Option.mem_map_of_mem maxSize htext)
  · rw [← htold, Told.install, hmodel]
    rfl

/-- A link whose texts are taken is installed. -/
theorem Accepted.applyLink (h : Documented P) (ha : Accepted P link) (p2p : P) :
    ∃ q, applyLink p2p link = some q := by
  have hq : ∀ text ∈ (failSafe link.maxPackets).map maxSize, isQueueSize P text = true := by
    intro text htext
    obtain ⟨maxPackets, hmax, rfl⟩ := Option.mem_map.mp htext
    exact ha.maxPackets maxPackets hmax
  have hqueue := map_told_setGiven h.setQueue p2p ((failSafe link.maxPackets).map maxSize)
  rw [if_pos hq] at hqueue
  obtain ⟨p₁, h₁, -⟩ := Option.map_eq_some_iff.mp hqueue
  have hrate := h.setDeviceAttribute p₁ link.dataRate
  rw [if_pos ha.dataRate] at hrate
  obtain ⟨p₂, h₂, -⟩ := Option.map_eq_some_iff.mp hrate
  have hdelay := map_told_setGiven h.setChannelAttribute p₂ (failSafe link.delay)
  rw [if_pos ha.delay] at hdelay
  obtain ⟨p₃, h₃, -⟩ := Option.map_eq_some_iff.mp hdelay
  obtain ⟨model, hmodel⟩ := Option.isSome_iff_exists.mp ha.lossRate
  exact ⟨_, Option.bind_eq_some_iff.mpr ⟨p₁, h₁, Option.bind_eq_some_iff.mpr ⟨p₂, h₂,
    Option.bind_eq_some_iff.mpr ⟨p₃, h₃, Option.bind_eq_some_iff.mpr ⟨model, hmodel, rfl⟩⟩⟩⟩⟩

/-- The links that helpers install one after the other. -/
def installAll (P : Type) [PointToPointHelper P] (p2p : Told) : List Link → List Installed
  | [] => []
  | link :: links => (p2p.set link).install P link :: installAll P (p2p.set link) links

theorem applyLoop_eq (h : Documented P) (p2p : P) (links : List Link) : applyLoop p2p links =
    if ∀ l ∈ links, Accepted P l then some (installAll P (told p2p) links) else none := by
  induction links generalizing p2p with
  | nil => rfl
  | cons link links ih =>
    rw [applyLoop]
    by_cases ha : Accepted P link
    · obtain ⟨⟨p₁, installed⟩, hl⟩ := ha.applyLink h p2p
      obtain ⟨-, htold, hinstalled⟩ := applyLink_some h hl
      have hiff : (∀ l ∈ links, Accepted P l) ↔ ∀ l ∈ link :: links, Accepted P l := by
        rw [List.forall_mem_cons, and_iff_right ha]
      rw [hl, Option.bind_eq_bind, Option.bind_some]
      dsimp only at htold hinstalled ⊢
      rw [ih, htold, hinstalled]
      simp only [hiff]
      split_ifs <;> rfl
    · have hnone : applyLink p2p link = none := by
        refine Option.eq_none_iff_forall_ne_some.mpr fun q hq => ha (applyLink_some h hq).1
      rw [hnone, if_neg fun hall => ha (hall link List.mem_cons_self)]
      rfl

/-- **The loop of `ApplySettings`** ends when ns-3 takes the texts of all links, and installs each with
what its helper has been told. -/
theorem applySettings_eq (h : Documented P) (links : List Link) : applySettings P links =
    if ∀ l ∈ links, Accepted P l then some (installAll P ⟨none, none, none⟩ links) else none := by
  rw [applySettings, applyLoop_eq h, h.told_fresh]

/-! ## What is installed -/

/-- The last setting of a column. -/
def lastSet (column : Link → Str) (links : List Link) : Option Str :=
  (links.filterMap fun l => failSafe (column l)).getLast?

omit [PointToPointHelper P] in
theorem lastSet_concat : lastSet column (links ++ [link]) =
    (failSafe (column link)).or (lastSet column links) := by
  unfold lastSet
  rw [List.filterMap_append]
  cases h : failSafe (column link) with
  | none => simp [h]
  | some a => simp [h]

/-- The settings after some links. -/
def Told.after (links : List Link) : Told where
  queueMaxSize := (lastSet Link.maxPackets links).map maxSize
  dataRate := links.getLast?.map Link.dataRate
  delay := lastSet Link.delay links

theorem Told.set_after (links : List Link) (link : Link) :
    (after links).set link = after (links ++ [link]) := by
  unfold after set
  rw [lastSet_concat, lastSet_concat, List.getLast?_concat]
  cases failSafe link.maxPackets <;> rfl

theorem installAll_after (done links : List Link) :
    (installAll P (.after done) links)[i]? =
      links[i]?.map ((Told.after (done ++ links.take (i + 1))).install P) := by
  induction links generalizing done i with
  | nil => rfl
  | cons link links ih =>
    rw [installAll, Told.set_after]
    cases i with
    | zero => rfl
    | succ i =>
      rw [List.getElem?_cons_succ, List.getElem?_cons_succ, ih, List.take_succ_cons, List.append_assoc]
      rfl

/-- **What is installed** for a link: its own data rate and error model, and the delay and the queue
that were set last, by itself or by an earlier link. -/
theorem getElem?_installAll (links : List Link) (i : ℕ) :
    (installAll P ⟨none, none, none⟩ links)[i]? =
      links[i]?.map ((Told.after (links.take (i + 1))).install P) :=
  installAll_after [] links

/-! ## Its own settings -/

/-- A link with its own settings only. -/
def Told.own (P : Type) [PointToPointHelper P] (link : Link) : Installed :=
  ((⟨none, none, none⟩ : Told).set link).install P link

theorem own_eq (h : Documented P) (ha : Accepted P link) : own P link = some (Told.own P link) := by
  obtain ⟨q, hq⟩ := ha.applyLink h (fresh : P)
  obtain ⟨-, -, hinstalled⟩ := applyLink_some h hq
  rw [own, hq, Option.map_some, hinstalled, h.told_fresh, Told.own]

omit [PointToPointHelper P] in
theorem lastSet_eq_none : lastSet column links = none ↔ ∀ l ∈ links, column l = [] := by
  simp [lastSet, failSafe]

omit [PointToPointHelper P] in
/-- The last setting is that of the last link, unless only links before it have one. -/
theorem lastSet_concat_iff : lastSet column (links ++ [link]) = failSafe (column link) ↔
    (column link = [] → ∀ l ∈ links, column l = []) := by
  rw [lastSet_concat, ← lastSet_eq_none]
  unfold failSafe
  split_ifs with h
  · simp [h]
  · simp [h]

theorem install_eq_own_iff :
    (Told.after (links ++ [link])).install P link = Told.own P link ↔
      (link.delay = [] → ∀ l ∈ links, l.delay = []) ∧
        (link.maxPackets = [] → ∀ l ∈ links, l.maxPackets = []) := by
  have hmax : Function.Injective maxSize := fun _ _ h => List.append_cancel_right h
  rw [← lastSet_concat_iff, ← lastSet_concat_iff]
  unfold Told.own Told.install Told.set Told.after
  rw [List.getLast?_concat, Option.or_none, Option.or_none]
  simp only [Installed.mk.injEq, true_and, and_true, Option.map_some,
    (Option.map_injective hmax).eq_iff]
  exact and_comm

theorem length_installAll (p2p : Told) (links : List Link) :
    (installAll P p2p links).length = links.length := by
  induction links generalizing p2p with
  | nil => rfl
  | cons link links ih => exact congrArg (· + 1) (ih _)

/-- One link more is installed after the others. -/
theorem installAll_concat (links : List Link) (link : Link) :
    installAll P ⟨none, none, none⟩ (links ++ [link]) =
      installAll P ⟨none, none, none⟩ links ++
        [(Told.after (links ++ [link])).install P link] := by
  have hloop : ∀ done : List Link, installAll P (.after done) (links ++ [link]) =
      installAll P (.after done) links ++ [(Told.after (done ++ links ++ [link])).install P link] := by
    induction links with
    | nil =>
      intro done
      change [((Told.after done).set link).install P link] = _
      rw [Told.set_after, List.append_nil]
      rfl
    | cons link' links ih =>
      intro done
      rw [List.cons_append, installAll, installAll, Told.set_after, ih]
      simp
  exact hloop []

/-- One link more keeps the settings their own if it gets its own. -/
theorem installAll_concat_eq_own_iff :
    installAll P ⟨none, none, none⟩ (links ++ [link]) = (links ++ [link]).map (Told.own P) ↔
      installAll P ⟨none, none, none⟩ links = links.map (Told.own P) ∧
        (link.delay = [] → ∀ l ∈ links, l.delay = []) ∧
          (link.maxPackets = [] → ∀ l ∈ links, l.maxPackets = []) := by
  have hlen : (installAll P ⟨none, none, none⟩ links).length = (links.map (Told.own P)).length := by
    rw [length_installAll, List.length_map]
  rw [installAll_concat, List.map_append, List.map_singleton, ← install_eq_own_iff (P := P)]
  constructor
  · intro h
    obtain ⟨hlinks, hlink⟩ := List.append_inj h hlen
    exact ⟨hlinks, List.singleton_inj.mp hlink⟩
  · rintro ⟨hlinks, hlink⟩
    rw [hlinks, hlink]

/-- Links are installed with their own settings exactly when none leaves out a delay or a queue length
that an earlier one has set. -/
theorem installAll_eq_own_iff (links : List Link) :
    installAll P ⟨none, none, none⟩ links = links.map (Told.own P) ↔
      links.Pairwise fun l l' =>
        (l'.delay = [] → l.delay = []) ∧ (l'.maxPackets = [] → l.maxPackets = []) := by
  induction links using List.reverseRecOn with
  | nil => exact iff_of_true rfl List.Pairwise.nil
  | append_singleton links link ih =>
    rw [installAll_concat_eq_own_iff, ih, List.pairwise_append]
    simp only [List.pairwise_singleton, List.mem_singleton, forall_eq, true_and]
    refine and_congr_right fun _ => ?_
    constructor
    · rintro ⟨hdelay, hmax⟩ l hl
      exact ⟨fun h => hdelay h l hl, fun h => hmax h l hl⟩
    · intro h
      exact ⟨fun hnil l hl => (h l hl).1 hnil, fun hnil l hl => (h l hl).2 hnil⟩

/-- The settings that links have for themselves, where ns-3 takes all their texts. -/
theorem mapM_own (h : Documented P) (ha : ∀ l ∈ links, Accepted P l) :
    links.mapM (own P) = some (links.map (Told.own P)) := by
  induction links with
  | nil => rfl
  | cons link links ih =>
    obtain ⟨hlink, hlinks⟩ := List.forall_mem_cons.mp ha
    rw [List.mapM_cons, own_eq h hlink, ih hlinks]
    rfl

/-- **Every link is installed with its own settings** exactly when ns-3 takes the texts of all links and
no link leaves out a delay or a queue length that an earlier link has set. -/
theorem settings_own_iff (h : Documented P) (links : List Link) :
    (∃ installed, applySettings P links = some installed ∧ links.mapM (own P) = some installed) ↔
      (∀ l ∈ links, Accepted P l) ∧ links.Pairwise fun l l' =>
        (l'.delay = [] → l.delay = []) ∧ (l'.maxPackets = [] → l.maxPackets = []) := by
  rw [applySettings_eq h]
  by_cases ha : ∀ l ∈ links, Accepted P l
  · rw [if_pos ha, and_iff_right ha, ← installAll_eq_own_iff (P := P), mapM_own h ha]
    simp only [Option.some.injEq, exists_eq_left']
    exact eq_comm
  · rw [if_neg ha]
    exact iff_of_false nofun fun hall => ha hall.1

end Apply

/-- Digits in front of a unit. -/
def isQuantity (unit : String) (text : Str) : Bool :=
  text.takeWhile Char.isDigit ≠ [] && text.dropWhile Char.isDigit = unit.toList

/-- Numbers of packets, megabits per second and milliseconds, and error models of one type. -/
@[reducible] def plainHelper : PointToPointHelper Told where
  fresh := ⟨none, none, none⟩
  setQueue p2p text := if isQuantity "p" text then some (p2p.setQueue text) else none
  setDeviceAttribute p2p text :=
    if isQuantity "Mbps" text then some (p2p.setDeviceAttribute text) else none
  setChannelAttribute p2p text :=
    if isQuantity "ms" text then some (p2p.setChannelAttribute text) else none
  queueMaxSize := Told.queueMaxSize
  dataRate := Told.dataRate
  delay := Told.delay
  isQueueSize := isQuantity "p"
  isDataRate := isQuantity "Mbps"
  isTime := isQuantity "ms"
  tokens separator text := some (text.splitOn separator)
  creates model := model.typeId = "ns3::RateErrorModel".toList

/-- A setter that takes the texts that can be read. -/
theorem map_told_plain (valid : Bool) (p2p : Told) :
    (if valid then some p2p else none).map (@told Told plainHelper) =
      if valid then some p2p else none := by
  split_ifs <;> rfl

theorem plainHelper_documented : @Documented Told plainHelper :=
  @Documented.mk Told plainHelper rfl (fun _ _ => map_told_plain _ _) (fun _ _ => map_told_plain _ _)
    fun _ _ => map_told_plain _ _

theorem isQuantity_decimal {unit : String} (hunit : NoDigit unit.toList) (n : ℕ) :
    isQuantity unit (Text.decimal n ++ unit.toList) = true := by
  obtain ⟨htake, hdrop⟩ := takeWhile_digits (fun _ hc => Text.isDigit_of_mem_decimal hc) hunit
  rw [isQuantity, htake, hdrop]
  simp [Text.decimal]

theorem plainHelper_readsUnits : @ReadsUnits Told plainHelper :=
  @ReadsUnits.mk Told plainHelper (fun n _ => isQuantity_decimal (by simp [NoDigit]) n)
    (fun n _ => isQuantity_decimal (by simp [NoDigit]) n)
    fun n _ => isQuantity_decimal (by simp [NoDigit]) n

/-- Two links, the second of which leaves out its delay and its queue length. -/
def leftOut : List Link :=
  [⟨"a".toList, "b".toList, "10Mbps".toList, "1".toList, "5ms".toList, "100".toList, []⟩,
    ⟨"a".toList, "c".toList, "10Mbps".toList, "1".toList, [], [], []⟩]

/-- A link that leaves out a delay comes before the others, but not after them. -/
theorem settings_own_leftOut :
    (∃ installed, @applySettings Told plainHelper leftOut.reverse = some installed ∧
      leftOut.reverse.mapM (@own Told plainHelper) = some installed) ∧
    ¬ ∃ installed, @applySettings Told plainHelper leftOut = some installed ∧
      leftOut.mapM (@own Told plainHelper) = some installed :=
  ⟨(@settings_own_iff Told plainHelper plainHelper_documented _).mpr (by decide),
    fun h => absurd ((@settings_own_iff Told plainHelper plainHelper_documented _).mp h) (by decide)⟩

/-! ## Metrics -/

/-- `boost::lexical_cast<uint16_t>`; none is the exception. -/
def lexicalCast (s : Str) : Option UInt16 :=
  let (neg, ds) := Text.readSign s
  let m := Nat.ofDigitChars 10 ds 0
  if ds ≠ [] ∧ ds.all Char.isDigit ∧ m < 2 ^ 16 then
    some (if neg then -UInt16.ofNat m else UInt16.ofNat m)
  else none

/-- `ApplyOspfMetric`: the metric that both faces of each link get. -/
def applyOspfMetric (links : List Link) : Option (List UInt16) :=
  links.mapM fun link => lexicalCast link.ospf

end Topology

end IncSim
