import ChainFeed.Proofs.Family.Paging
import ChainFeed.Proofs.Family.Watched
import Mathlib.Data.Finset.Card
import Mathlib.Logic.Relation

/-!
# How long a history is paged through

Another page is asked for as long as pages are full and do not reach back before the range. Nothing else ends
the paging, so it depends on the node to get on: paging ends if no page is asked for before a signature that a
page was asked for before already, and a node that leads it back to one and keeps to its answers is asked for
ever.
-/

namespace ChainFeed

open Rpc (Request Response NodeError TransportError Transport)
open Family

variable {σ : Type}

namespace Solana

structure Turn where
  before : Option String
  answer : Except TransportError Response

/-- What is read of the answer to the request for a page. -/
def readPage (answer : Except TransportError Response) : Except RepositoryError (List Signature) :=
  ((answer.mapError RepositoryError.ofTransport).bind result).bind
    (readPart "signature page" (Json.list? Signature.ofJson?))

theorem readPage_ne_endless {address : String} (answer : Except TransportError Response) :
    readPage answer ≠ .error (.endlessHistory address) := by
  intro hread
  cases answer with
  | error e => cases e <;> cases hread
  | ok response =>
    simp only [readPage, Except.mapError, Except.bind, result, readPart] at hread
    cases houtcome : response.outcome with
    | error e =>
      rw [houtcome] at hread
      cases hread
    | ok value =>
      rw [houtcome] at hread
      dsimp only at hread
      cases hentries : value.list? Signature.ofJson? <;> rw [hentries] at hread <;> cases hread

def goesOn (limit : Nat) (filter : LogFilter) (entries : List Signature) : Bool :=
  !((inRange filter entries).2 || decide (entries.length < limit))

def lastSignature (entries : List Signature) : Option String := entries.getLast?.map (·.signature)

theorem historyFrom_succ {m : Type → Type} [Monad m] (t : Transport m) (limit : Nat) (address : String)
    (filter : LogFilter) (budget n : Nat) (before : Option String) :
    historyFrom t limit address filter (budget + 1) n before = (do
      let value ← ask t (pageRequest limit n address before)
      let entries ← having (readPart "signature page" (Json.list? Signature.ofJson?) value)
      if goesOn limit filter entries then
        let older ← historyFrom t limit address filter budget (n + 1) (lastSignature entries)
        return (inRange filter entries).1 ++ older
      else return (inRange filter entries).1) := by
  rw [historyFrom]
  congr 1
  funext value
  congr 1
  funext entries
  by_cases hlast : ((inRange filter entries).2 || decide (entries.length < limit)) = true
  · have hgoes : ¬ goesOn limit filter entries = true := by
      simp only [goesOn, hlast]
      decide
    rw [if_neg hgoes]
    exact if_pos hlast
  · have hgoes : goesOn limit filter entries = true := by
      simp only [goesOn, Bool.eq_false_iff.mpr hlast]
      rfl
    rw [if_pos hgoes]
    exact if_neg hlast

/-- How a history can be paged through with some pages in stock, from the page before a signature on: the turns
that are made, and what comes of them. -/
inductive Turns (limit : Nat) (address : String) (filter : LogFilter) :
    Nat → Option String → List Turn → Except RepositoryError (List Signature) → Prop
  | spent (before : Option String) : Turns limit address filter 0 before [] (.error (.endlessHistory address))
  | failed (budget : Nat) (t : Turn) {e : RepositoryError} (read : readPage t.answer = .error e) :
      Turns limit address filter (budget + 1) t.before [t] (.error e)
  | done (budget : Nat) (t : Turn) {entries : List Signature} (read : readPage t.answer = .ok entries)
      (last : goesOn limit filter entries = false) :
      Turns limit address filter (budget + 1) t.before [t] (.ok (inRange filter entries).1)
  | onward {budget : Nat} (t : Turn) {entries : List Signature} {turns : List Turn}
      {result : Except RepositoryError (List Signature)} (read : readPage t.answer = .ok entries)
      (more : goesOn limit filter entries = true)
      (later : Turns limit address filter budget (lastSignature entries) turns result) :
      Turns limit address filter (budget + 1) t.before (t :: turns)
        (result.map ((inRange filter entries).1 ++ ·))

def calls (chain : String) (limit : Nat) (address : String) (n : Nat) (turns : List Turn) :
    List Registry.Deed :=
  (turns.zipIdx n).map fun (t, page) => .sent chain (pageRequest limit page address t.before) t.answer

theorem length_calls (chain : String) (limit : Nat) (address : String) (n : Nat) (turns : List Turn) :
    (calls chain limit address n turns).length = turns.length := by
  rw [calls, List.length_map, List.length_zipIdx]

def Turn.IsGenuine (t : Transport (StateM σ)) (limit : Nat) (address : String) (u : Turn) : Prop :=
  ∃ n s, u.answer = (t.send (pageRequest limit n address u.before) s).1

def Turn.IsFrom (S : Finset String) (u : Turn) : Prop :=
  ∀ entries, readPage u.answer = .ok entries → ∀ e ∈ entries, e.signature ∈ S

/-- All signatures that the node ever gives for the address are from a set. -/
def DrawsFrom (S : Finset String) (t : Transport (StateM σ)) (limit : Nat) (address : String) : Prop :=
  ∀ u : Turn, u.IsGenuine t limit address → u.IsFrom S

section

variable (chain : String) (c : ChainSettings (StateM σ)) (limit : Nat) (address : String) (filter : LogFilter)

theorem run_historyFrom_succ (budget : Nat) {n : Nat} {before : Option String} {s after : σ}
    {answer : Except TransportError Response}
    (sent : c.transport.send (pageRequest limit n address before) s = (answer, after)) :
    let t := (Registry.watchedChain chain c).transport
    let call := Registry.Deed.sent chain (pageRequest limit n address before) answer
    (historyFrom t limit address filter (budget + 1) n before).run.run s =
      match readPage answer with
      | .error e => ⟨.error e, [call], after⟩
      | .ok entries =>
        let kept := (inRange filter entries).1
        if goesOn limit filter entries then
          let older :=
            (historyFrom t limit address filter budget (n + 1) (lastSignature entries)).run.run after
          ⟨older.result.map (kept ++ ·), call :: older.deeds, older.after⟩
        else ⟨.ok kept, [call], after⟩ := by
  have hask := Registry.run_ask chain c (pageRequest limit n address before) s
  rw [sent] at hask
  dsimp only at hask ⊢
  cases hvalue : (answer.mapError RepositoryError.ofTransport).bind result with
  | error e =>
    have hread : readPage answer = .error e := by rw [readPage, hvalue]; rfl
    rw [hvalue] at hask
    rw [hread, historyFrom, Journal.run_bind_error hask]
  | ok value =>
    have hhaving : (having (readPart "signature page" (Json.list? Signature.ofJson?) value) :
        ExceptT RepositoryError (Journal Registry.Deed σ) _).run.run after = ⟨readPage answer, [], after⟩ := by
      rw [readPage, hvalue]
      rfl
    rw [hvalue] at hask
    cases hread : readPage answer with
    | error e =>
      rw [hread] at hhaving
      rw [historyFrom, Journal.run_bind_ok hask (Journal.run_bind_error hhaving)]
      rfl
    | ok entries =>
      rw [hread] at hhaving
      dsimp only
      by_cases hmore : goesOn limit filter entries = true
      · rw [historyFrom_succ, if_pos hmore]
        refine Journal.run_bind_ok hask (Journal.run_bind_ok hhaving ?_)
        rw [if_pos hmore]
        exact Journal.run_bind_pure rfl _
      · rw [historyFrom_succ, if_neg hmore]
        refine Journal.run_bind_ok hask (Journal.run_bind_ok hhaving ?_)
        rw [if_neg hmore]
        rfl

/-- What is written down while a history is paged through are the calls of some turns. -/
theorem run_historyFrom (budget n : Nat) (before : Option String) (s : σ) :
    let t := (Registry.watchedChain chain c).transport
    let page := (historyFrom t limit address filter budget n before).run.run s
    ∃ turns, Turns limit address filter budget before turns page.result ∧
      page.deeds = calls chain limit address n turns ∧ ∀ u ∈ turns, u.IsGenuine c.transport limit address := by
  induction budget generalizing n before s with
  | zero => exact ⟨[], .spent before, rfl, List.forall_mem_nil _⟩
  | succ budget ih =>
    rcases sent : c.transport.send (pageRequest limit n address before) s with ⟨answer, after⟩
    have hgenuine : (Turn.mk before answer).IsGenuine c.transport limit address := ⟨n, s, by rw [sent]⟩
    dsimp only
    rw [run_historyFrom_succ chain c limit address filter budget sent]
    cases hread : readPage answer with
    | error e => exact ⟨_, .failed budget ⟨before, answer⟩ hread, rfl, List.forall_mem_singleton.mpr hgenuine⟩
    | ok entries =>
      dsimp only
      by_cases hmore : goesOn limit filter entries = true
      · obtain ⟨turns, hturns, hdeeds, hlater⟩ := ih (n + 1) (lastSignature entries) after
        rw [if_pos hmore]
        refine ⟨_, .onward ⟨before, answer⟩ hread hmore hturns, ?_, ?_⟩
        · simp [calls, hdeeds]
        · exact List.forall_mem_cons.mpr ⟨hgenuine, hlater⟩
      · rw [if_neg hmore]
        exact ⟨_, .done budget ⟨before, answer⟩ hread (Bool.eq_false_iff.mpr hmore), rfl,
          List.forall_mem_singleton.mpr hgenuine⟩

end

namespace Turns

variable {limit budget : Nat} {address : String} {filter : LogFilter} {before : Option String}
  {turns : List Turn} {result : Except RepositoryError (List Signature)}

theorem length_of_given_up (h : Turns limit address filter budget before turns result)
    (given_up : result = .error (.endlessHistory address)) : turns.length = budget := by
  induction h with
  | spent => rfl
  | failed budget t read => exact absurd (given_up ▸ read) (readPage_ne_endless _)
  | done => cases given_up
  | @onward budget t entries turns result _ _ _ ih =>
    cases result with
    | error e => rw [List.length_cons, ih given_up]
    | ok older => cases given_up

theorem before_mem (h : Turns limit address filter budget before turns result) (hlimit : 0 < limit)
    {S : Finset String} (drawn : ∀ t ∈ turns, t.IsFrom S) :
    ∀ t ∈ turns, t.before = before ∨ t.before ∈ S.image some := by
  induction h with
  | spent => exact List.forall_mem_nil _
  | failed _ t | done _ t => exact List.forall_mem_singleton.mpr (.inl rfl)
  | @onward _ t entries turns _ read more later ih =>
    obtain ⟨hfirst, hrest⟩ := List.forall_mem_cons.mp drawn
    have hlast : lastSignature entries ∈ S.image some := by
      have hentries : entries ≠ [] := by
        rintro rfl
        simp [goesOn, inRange, hlimit] at more
      rw [lastSignature, List.getLast?_eq_some_getLast hentries]
      exact Finset.mem_image_of_mem some (hfirst entries read _ (List.getLast_mem hentries))
    refine List.forall_mem_cons.mpr ⟨.inl rfl, fun u hu => .inr ?_⟩
    rcases ih hrest u hu with hbefore | hbefore
    · rwa [hbefore]
    · exact hbefore

theorem length_le_card (h : Turns limit address filter budget before turns result) (hlimit : 0 < limit)
    {S : Finset String} (drawn : ∀ t ∈ turns, t.IsFrom S) (distinct : (turns.map (·.before)).Nodup) :
    turns.length ≤ S.card + 1 := by
  have hsubset : (turns.map (·.before)).toFinset ⊆ insert before (S.image some) := by
    intro b hb
    obtain ⟨t, ht, rfl⟩ := List.mem_map.mp (List.mem_toFinset.mp hb)
    exact Finset.mem_insert.mpr (h.before_mem hlimit drawn t ht)
  calc turns.length = (turns.map (·.before)).toFinset.card := by
        rw [List.toFinset_card_of_nodup distinct, List.length_map]
    _ ≤ (insert before (S.image some)).card := Finset.card_le_card hsubset
    _ ≤ (S.image some).card + 1 := Finset.card_insert_le _ _
    _ ≤ S.card + 1 := Nat.succ_le_succ Finset.card_image_le

end Turns

def heardPage (say : String → Json → Except NodeError Json) (limit : Nat) (address : String)
    (before : Option String) : Except RepositoryError (List Signature) :=
  let r := pageRequest limit 1 address before
  (relayed (say r.method r.params)).bind (readPart "signature page" (Json.list? Signature.ofJson?))

theorem Turn.IsGenuine.readPage_eq {t : Transport (StateM σ)} {say : String → Json → Except NodeError Json}
    (steady : t.Steady say) {limit : Nat} {address : String} {u : Turn} (h : u.IsGenuine t limit address) :
    readPage u.answer = heardPage say limit address u.before := by
  obtain ⟨n, s, hanswer⟩ := h
  obtain ⟨response, hsent, houtcome⟩ := steady.send (pageRequest limit n address u.before) s
  rw [hanswer, hsent, readPage, Except.mapError, Except.bind, result_eq, houtcome]
  rfl

section

variable (say : String → Json → Except NodeError Json) (limit : Nat) (address : String) (filter : LogFilter)

/-- After the page before the one signature, the page before the other one is asked for. -/
def Leads (before next : Option String) : Prop :=
  ∃ entries, heardPage say limit address before = .ok entries ∧ goesOn limit filter entries = true ∧
    next = lastSignature entries

/-- From each of these places the node leads on to one of them. -/
def Captive (places : Set (Option String)) : Prop :=
  ∀ before ∈ places, ∃ next ∈ places, Leads say limit address filter before next

end

variable {say : String → Json → Except NodeError Json} {limit budget : Nat} {address : String}
  {filter : LogFilter} {before : Option String} {turns : List Turn}
  {result : Except RepositoryError (List Signature)}

theorem Turns.given_up_of_captive (h : Turns limit address filter budget before turns result)
    (heard : ∀ t ∈ turns, readPage t.answer = heardPage say limit address t.before)
    {places : Set (Option String)} (captive : Captive say limit address filter places)
    (inside : before ∈ places) : turns.length = budget ∧ result = .error (.endlessHistory address) := by
  induction h with
  | spent => exact ⟨rfl, rfl⟩
  | failed budget t read =>
    obtain ⟨next, -, entries, hpage, -, -⟩ := captive t.before inside
    rw [← heard t List.mem_cons_self, read] at hpage
    cases hpage
  | done budget t read last =>
    obtain ⟨next, -, entries, hpage, hmore, -⟩ := captive t.before inside
    rw [← heard t List.mem_cons_self, read] at hpage
    cases hpage
    rw [last] at hmore
    cases hmore
  | onward t read more later ih =>
    obtain ⟨hfirst, hrest⟩ := List.forall_mem_cons.mp heard
    obtain ⟨next, hnext, entries, hpage, -, rfl⟩ := captive t.before inside
    rw [← hfirst, read] at hpage
    cases hpage
    obtain ⟨hlength, hresult⟩ := ih hrest hnext
    exact ⟨by rw [List.length_cons, hlength], by rw [hresult]; rfl⟩

theorem Turns.leads_to (h : Turns limit address filter budget before turns result)
    (heard : ∀ t ∈ turns, readPage t.answer = heardPage say limit address t.before) :
    ∀ t ∈ turns, Relation.ReflTransGen (Leads say limit address filter) before t.before := by
  induction h with
  | spent => exact List.forall_mem_nil _
  | failed _ t | done _ t => exact List.forall_mem_singleton.mpr .refl
  | onward t read more later ih =>
    obtain ⟨hfirst, hrest⟩ := List.forall_mem_cons.mp heard
    have hleads : Leads say limit address filter t.before _ := ⟨_, hfirst ▸ read, more, rfl⟩
    exact List.forall_mem_cons.mpr ⟨.refl, fun u hu => .head hleads (ih hrest u hu)⟩

/-- The places on a way that leads back to where it starts. -/
theorem captive_of_cycle (leads : Relation.TransGen (Leads say limit address filter) before before) :
    Captive say limit address filter
      {b | Relation.ReflTransGen (Leads say limit address filter) before b ∧
        Relation.ReflTransGen (Leads say limit address filter) b before} := by
  rintro b ⟨hto, hback⟩
  have honward : ∃ next, Leads say limit address filter b next ∧
      Relation.ReflTransGen (Leads say limit address filter) next before := by
    rcases hback.cases_head with rfl | hnext
    · exact Relation.TransGen.head'_iff.mp leads
    · exact hnext
  obtain ⟨next, hleads, hnext⟩ := honward
  exact ⟨next, ⟨hto.tail hleads, hnext⟩, hleads⟩

theorem Captive.insert {places : Set (Option String)} (captive : Captive say limit address filter places)
    {next : Option String} (inside : next ∈ places) (leads : Leads say limit address filter before next) :
    Captive say limit address filter (insert before places) := by
  rintro b (rfl | hb)
  · exact ⟨next, Set.mem_insert_of_mem _ inside, leads⟩
  · obtain ⟨next, hnext, hleads⟩ := captive b hb
    exact ⟨next, Set.mem_insert_of_mem _ hnext, hleads⟩

/-- A node that leads back to a place where it was keeps to a cycle, and all of the way there leads to it. -/
theorem Turns.captive_of_repeated (h : Turns limit address filter budget before turns result)
    (heard : ∀ t ∈ turns, readPage t.answer = heardPage say limit address t.before)
    (repeated : ¬ (turns.map (·.before)).Nodup) :
    ∃ places, Captive say limit address filter places ∧ before ∈ places := by
  induction h with
  | spent => exact absurd List.nodup_nil repeated
  | failed | done => exact absurd (List.nodup_singleton _) repeated
  | @onward _ t entries turns _ read more later ih =>
    obtain ⟨hfirst, hrest⟩ := List.forall_mem_cons.mp heard
    have hleads : Leads say limit address filter t.before (lastSignature entries) :=
      ⟨entries, hfirst ▸ read, more, rfl⟩
    by_cases hback : t.before ∈ turns.map (·.before)
    · obtain ⟨u, hu, hsame⟩ := List.mem_map.mp hback
      have hcycle := Relation.TransGen.head' hleads (later.leads_to hrest u hu)
      rw [hsame] at hcycle
      exact ⟨_, captive_of_cycle hcycle, .refl, .refl⟩
    · have hlater : ¬ (turns.map (·.before)).Nodup := fun distinct =>
        repeated (List.nodup_cons.mpr ⟨hback, distinct⟩)
      obtain ⟨places, captive, inside⟩ := ih hrest hlater
      exact ⟨_, captive.insert inside hleads, Set.mem_insert _ _⟩

def askedBefore : Registry.Deed → Option String
  | .sent _ r _ => match r.params with
    | .arr [_, options] => (options.get? "before").bind Json.text?
    | _ => none
  | _ => none

theorem askedBefore_page (chain : String) (n : Nat) (before : Option String)
    (answer : Except TransportError Response) :
    askedBefore (.sent chain (pageRequest limit n address before) answer) = before := by
  rw [askedBefore, pageRequest_params]
  cases before <;> rfl

theorem map_askedBefore_calls (chain : String) (n : Nat) (turns : List Turn) :
    (calls chain limit address n turns).map askedBefore = turns.map (·.before) := by
  calc (calls chain limit address n turns).map askedBefore
      = (turns.zipIdx n).map fun p => p.1.before := by simp [calls, Function.comp_def, askedBefore_page]
    _ = ((turns.zipIdx n).map Prod.fst).map (·.before) := List.map_map.symm
    _ = turns.map (·.before) := by rw [List.zipIdx_map_fst]

section

variable (chain : String) (c : ChainSettings (StateM σ)) (size : Nat)

/-- The history of an address, in pages of some size and with some pages in stock. -/
def paged (address : String) (filter : LogFilter) (budget : Nat) (s : σ) :
    Journal.Page Registry.Deed σ (Except RepositoryError (List Signature)) :=
  (history (Registry.watchedChain chain c).transport ⟨size, budget⟩ address filter).run.run s

theorem paged_eq_turns (address : String) (filter : LogFilter) (budget : Nat) (s : σ) :
    let page := paged chain c size address filter budget s
    ∃ turns, Turns (max size 1) address filter budget none turns page.result ∧
      page.deeds = calls chain (max size 1) address 1 turns ∧
      ∀ t ∈ turns, t.IsGenuine c.transport (max size 1) address :=
  run_historyFrom chain c (max size 1) address filter budget 1 none s

theorem paged_of_captive (steady : c.transport.Steady say) {places : Set (Option String)}
    (captive : Captive say (max size 1) address filter places) (inside : none ∈ places) (budget : Nat)
    (s : σ) :
    let page := paged chain c size address filter budget s
    page.deeds.length = budget ∧ page.result = .error (.endlessHistory address) := by
  obtain ⟨turns, hturns, hdeeds, hgenuine⟩ := paged_eq_turns chain c size address filter budget s
  have heard := fun t ht => (hgenuine t ht).readPage_eq steady
  obtain ⟨hlength, hresult⟩ := hturns.given_up_of_captive heard captive inside
  refine ⟨?_, hresult⟩
  rw [hdeeds, length_calls, hlength]

/-- With signatures from a finite set, paging ends after at most one page more than there are signatures,
unless it is led back to ask for a page before the same signature again. A node that keeps to its answers is
then asked for ever. -/
theorem history_ends_unless_led_back {address : String} {S : Finset String}
    (draws : DrawsFrom S c.transport (max size 1) address) (filter : LogFilter) (budget : Nat) (s : σ) :
    let page := paged chain c size address filter budget s
    (∃ turns, Turns (max size 1) address filter budget none turns page.result ∧
      page.deeds = calls chain (max size 1) address 1 turns) ∧
    ((page.deeds.map askedBefore).Nodup →
      page.deeds.length ≤ S.card + 1 ∧
        (S.card + 1 < budget → page.result ≠ .error (.endlessHistory address))) ∧
    ∀ say, c.transport.Steady say → ¬ (page.deeds.map askedBefore).Nodup → ∀ budget s,
      let page := paged chain c size address filter budget s
      page.deeds.length = budget ∧ page.result = .error (.endlessHistory address) := by
  obtain ⟨turns, hturns, hdeeds, hgenuine⟩ := paged_eq_turns chain c size address filter budget s
  have hbefores : (paged chain c size address filter budget s).deeds.map askedBefore = turns.map (·.before) := by
    rw [hdeeds, map_askedBefore_calls]
  have hcount : (paged chain c size address filter budget s).deeds.length = turns.length := by
    rw [hdeeds, length_calls]
  refine ⟨⟨turns, hturns, hdeeds⟩, fun distinct => ?_, fun say steady repeated => ?_⟩
  · rw [hbefores] at distinct
    have hdrawn : ∀ t ∈ turns, t.IsFrom S := fun t ht => draws t (hgenuine t ht)
    have hfew := hturns.length_le_card (Nat.le_max_right size 1) hdrawn distinct
    refine ⟨hcount ▸ hfew, fun enough given_up => ?_⟩
    have hall := hturns.length_of_given_up given_up
    omega
  · rw [hbefores] at repeated
    have heard := fun t ht => (hgenuine t ht).readPage_eq steady
    obtain ⟨places, captive, inside⟩ := hturns.captive_of_repeated heard repeated
    exact fun budget s => paged_of_captive chain c size steady captive inside budget s

end

theorem DrawsFrom.of_steady {S : Finset String} {t : Transport (StateM σ)} (steady : t.Steady say)
    (h : ∀ before entries, heardPage say limit address before = .ok entries → ∀ e ∈ entries, e.signature ∈ S) :
    DrawsFrom S t limit address :=
  fun u hu entries hread => h u.before entries ((hu.readPage_eq steady).symm.trans hread)

private def window : LogFilter := { addresses := ["Pool111"], fromBlock := 7, toBlock := 9 }

private def entryPage (signature : String) (slot : Nat) : Json :=
  .arr [.obj [("signature", .str signature), ("slot", .nat slot), ("err", .null)]]

private def twoPages (_ : String) (params : Json) : Except NodeError Json :=
  match params with
  | .arr [_, .obj [("before", .str s), _, _]] => .ok (if s = "b" then entryPage "a" 8 else .arr [])
  | _ => .ok (entryPage "b" 9)

private def samePage (_ : String) (_ : Json) : Except NodeError Json := .ok (entryPage "a" 8)

private theorem heardPage_twoPages (before : Option String) : heardPage twoPages (max 1 1) "Pool111" before =
    .ok (match before with
      | none => [⟨"b", 9, false⟩]
      | some s => if s = "b" then [⟨"a", 8, false⟩] else []) := by
  have hnewer : (entryPage "b" 9).list? Signature.ofJson? = some [⟨"b", 9, false⟩] := by decide +kernel
  have holder : (entryPage "a" 8).list? Signature.ofJson? = some [⟨"a", 8, false⟩] := by decide +kernel
  have hnone : (Json.arr []).list? Signature.ofJson? = some [] := rfl
  rw [heardPage, pageRequest_params]
  cases before with
  | none => simp [twoPages, relayed, readPart, Except.mapError, Except.bind, hnewer]
  | some s =>
    by_cases hs : s = "b" <;>
      simp [twoPages, relayed, readPart, Except.mapError, Except.bind, holder, hnone, hs]

private theorem heardPage_samePage (before : Option String) :
    heardPage samePage (max 1 1) "Pool111" before = .ok [⟨"a", 8, false⟩] := by
  have hread : (entryPage "a" 8).list? Signature.ofJson? = some [⟨"a", 8, false⟩] := by decide +kernel
  simp [heardPage, samePage, relayed, readPart, Except.mapError, Except.bind, hread]

private theorem twoPages_draws :
    DrawsFrom {"a", "b"} (Transport.saying twoPages : Transport (StateM Unit)) (max 1 1) "Pool111" := by
  apply DrawsFrom.of_steady (Transport.saying_steady twoPages)
  intro before entries hread
  rw [heardPage_twoPages] at hread
  cases hread
  cases before with
  | none => simp
  | some s => by_cases hs : s = "b" <;> simp [hs]

private theorem samePage_draws :
    DrawsFrom {"a"} (Transport.saying samePage : Transport (StateM Unit)) (max 1 1) "Pool111" := by
  apply DrawsFrom.of_steady (Transport.saying_steady samePage)
  intro before entries hread
  rw [heardPage_samePage] at hread
  cases hread
  simp

private def dwindling : ChainSettings (StateM Unit) := ⟨1, .saying twoPages⟩

private def repeating : ChainSettings (StateM Unit) := ⟨1, .saying samePage⟩

theorem two_pages_end_one_repeats :
    (∀ budget, (paged "solana" repeating 1 "Pool111" window budget ()).deeds.length = budget) ∧
      let page := paged "solana" dwindling 1 "Pool111" window 4 ()
      page.deeds.length ≤ 3 ∧ page.result ≠ .error (.endlessHistory "Pool111") := by
  obtain ⟨-, hends, -⟩ := history_ends_unless_led_back "solana" dwindling 1 twoPages_draws window 4 ()
  obtain ⟨-, -, hrepeats⟩ := history_ends_unless_led_back "solana" repeating 1 samePage_draws window 3 ()
  constructor
  · have hrepeated : ¬ ((paged "solana" repeating 1 "Pool111" window 3 ()).deeds.map askedBefore).Nodup := by
      decide +kernel
    exact fun budget => (hrepeats samePage (Transport.saying_steady samePage) hrepeated budget ()).1
  · have hdistinct : ((paged "solana" dwindling 1 "Pool111" window 4 ()).deeds.map askedBefore).Nodup := by
      decide +kernel
    obtain ⟨hfew, hdone⟩ := hends hdistinct
    exact ⟨hfew, hdone (by decide)⟩

theorem same_page_never_ends :
    DrawsFrom {"a"} repeating.transport (max 1 1) "Pool111" ∧
      ¬ ∃ calls, ∀ budget, (paged "solana" repeating 1 "Pool111" window budget ()).deeds.length ≤ calls := by
  refine ⟨samePage_draws, ?_⟩
  rintro ⟨calls, hcalls⟩
  have captive : Captive samePage (max 1 1) "Pool111" window Set.univ := by
    intro before _
    exact ⟨some "a", trivial, _, heardPage_samePage before, by decide, rfl⟩
  have steady : repeating.transport.Steady samePage := Transport.saying_steady samePage
  obtain ⟨hcount, -⟩ := paged_of_captive "solana" repeating 1 steady captive trivial (calls + 1) ()
  have hfew := hcalls (calls + 1)
  rw [hcount] at hfew
  exact Nat.not_succ_le_self calls hfew

end Solana

end ChainFeed
