import Mathlib.Data.List.Perm.Basic
import SpringDemo.Rpc.Proto

/-! The client's connections and the selector that lends them out. -/
namespace SpringDemo.Rpc

open Java Lib.Text

/-- A transport client: an object of its own, with the address it was connected to. -/
structure HttpTransportClient where
  id : Nat
  url : Option JString
deriving DecidableEq

namespace HttpTransportClient

/-- `"http://"+peer.getHost()+":"+peer.getPort()`. -/
def urlOf (peer : Peer) : JString :=
  utf16 "http://" ++ orNull peer.host ++ utf16 ":" ++ intToString peer.port

/-- The address determines the port and the host; a null host is one of the name `null`. -/
theorem urlOf_eq_iff {peer peer' : Peer} :
    urlOf peer = urlOf peer' ↔ orNull peer.host = orNull peer'.host ∧ peer.port = peer'.port := by
  have hcolon : utf16 ":" = [58] := rfl
  -- a host may hold colons of its own, but no port does
  simp only [urlOf, hcolon, List.append_assoc, List.append_cancel_left_eq, List.singleton_append]
  rw [append_cons_inj_of_last (colon_notMem_intToString _) (colon_notMem_intToString _)]
  exact and_congr_right fun _ => ⟨intToString_injective, congrArg intToString⟩

def connect (client : HttpTransportClient) (peer : Peer) : HttpTransportClient :=
  { client with url := some (urlOf peer) }

end HttpTransportClient

/-- The list of the selector, with the number of clients that were ever instantiated. -/
structure RandomTransportSelector where
  clients : List HttpTransportClient
  allocated : Nat
deriving DecidableEq

namespace RandomTransportSelector

def new : RandomTransportSelector := ⟨[], 0⟩

/-- One round of the loops of `init`: a new client, connected and added. -/
def addConnected (sel : RandomTransportSelector) (peer : Peer) : RandomTransportSelector where
  clients := sel.clients ++ [HttpTransportClient.connect ⟨sel.allocated, none⟩ peer]
  allocated := sel.allocated + 1

def init (sel : RandomTransportSelector) (peers : List Peer) (count : Int) :
    RandomTransportSelector :=
  let count := max count 1
  peers.foldl (fun sel peer =>
    (List.range count.toNat).foldl (fun sel _ => sel.addConnected peer) sel) sel

/-- `new Random().nextInt(bound)`. -/
def nextInt (seed bound : Nat) : Except Throwable Nat :=
  if bound = 0 then .error (.illegalArgumentException "bound must be positive")
  else .ok (seed % bound)

def select (sel : RandomTransportSelector) (seed : Nat) :
    Except Throwable (HttpTransportClient × RandomTransportSelector) :=
  match nextInt seed sel.clients.length with
  | .error e => .error e
  | .ok i =>
    match sel.clients[i]? with
    | none => .error .indexOutOfBoundsException
    | some client => .ok (client, { sel with clients := sel.clients.eraseIdx i })

def release (sel : RandomTransportSelector) (client : HttpTransportClient) :
    RandomTransportSelector :=
  { sel with clients := sel.clients ++ [client] }

def close (sel : RandomTransportSelector) : RandomTransportSelector := { sel with clients := [] }

variable {sel sel' : RandomTransportSelector} {client : HttpTransportClient} {seed : Nat}

@[simp] theorem addConnected_clients (sel : RandomTransportSelector) (peer : Peer) :
    (sel.addConnected peer).clients =
      sel.clients ++ [HttpTransportClient.connect ⟨sel.allocated, none⟩ peer] := rfl

@[simp] theorem release_clients (sel : RandomTransportSelector) (client : HttpTransportClient) :
    (sel.release client).clients = sel.clients ++ [client] := rfl

/-- The peers that `init` connects to, one entry for each connection. -/
def entries (peers : List Peer) (count : Int) : List Peer :=
  peers.flatMap fun peer => List.replicate (max count 1).toNat peer

/-- The nested loops of `init` are one loop over the entries. -/
theorem init_eq (sel : RandomTransportSelector) (peers : List Peer) (count : Int) :
    sel.init peers count = (entries peers count).foldl addConnected sel := by
  have hloop : ∀ (n : Nat) (peer : Peer) (sel : RandomTransportSelector),
      (List.range n).foldl (fun sel _ => sel.addConnected peer) sel =
        (List.replicate n peer).foldl addConnected sel := by
    intro n peer
    induction n with
    | zero =>
      intro sel
      rfl
    | succ n ih =>
      intro sel
      rw [List.range_succ, List.replicate_succ', List.foldl_append, List.foldl_append, ih]
      rfl
  induction peers generalizing sel with
  | nil => rfl
  | cons peer peers ih =>
    rw [entries, List.flatMap_cons, List.foldl_append, ← hloop, ← entries, ← ih]
    rfl

/-- The clients that are made for these peers, one after the other. -/
def fresh (sel : RandomTransportSelector) (peers : List Peer) : List HttpTransportClient :=
  peers.mapIdx fun i peer => .connect ⟨sel.allocated + i, none⟩ peer

@[simp] theorem fresh_nil (sel : RandomTransportSelector) : sel.fresh [] = [] := rfl

theorem fresh_cons (sel : RandomTransportSelector) (peer : Peer) (peers : List Peer) :
    sel.fresh (peer :: peers) =
      [.connect ⟨sel.allocated, none⟩ peer] ++ (sel.addConnected peer).fresh peers := by
  simp [fresh, List.mapIdx_cons, addConnected, Nat.add_assoc, Nat.add_comm 1]

theorem length_fresh (sel : RandomTransportSelector) (peers : List Peer) :
    (sel.fresh peers).length = peers.length := List.length_mapIdx

/-- The loop adds one client for each entry, connected to its peer. -/
theorem foldl_addConnected (sel : RandomTransportSelector) (peers : List Peer) :
    (peers.foldl addConnected sel).clients = sel.clients ++ sel.fresh peers := by
  induction peers generalizing sel with
  | nil => rw [fresh_nil, List.append_nil, List.foldl_nil]
  | cons peer peers ih =>
    rw [List.foldl_cons, ih, fresh_cons, addConnected_clients, List.append_assoc]

theorem init_clients (sel : RandomTransportSelector) (peers : List Peer) (count : Int) :
    (sel.init peers count).clients = sel.clients ++ sel.fresh (entries peers count) := by
  rw [init_eq, foldl_addConnected]

/-- Every client of a fresh pool is connected to one of the peers. -/
theorem url_of_mem_init {peers : List Peer} {count : Int} {client : HttpTransportClient}
    (h : client ∈ (new.init peers count).clients) :
    ∃ peer ∈ peers, client.url = some (HttpTransportClient.urlOf peer) := by
  rw [init_clients, new, List.nil_append] at h
  obtain ⟨i, hi, rfl⟩ := List.mem_mapIdx.mp h
  obtain ⟨peer, hpeer, hrep⟩ := List.mem_flatMap.mp (List.getElem_mem hi)
  rw [List.eq_of_mem_replicate hrep]
  exact ⟨peer, hpeer, rfl⟩

/-- Any count makes at least one connection to a peer. -/
theorem entries_ne_nil {peers : List Peer} (h : peers ≠ []) (count : Int) :
    entries peers count ≠ [] := by
  obtain ⟨peer, peers, rfl⟩ := List.exists_cons_of_ne_nil h
  rw [entries, List.flatMap_cons, ne_eq, List.append_eq_nil_iff, List.replicate_eq_nil_iff]
  omega

theorem fresh_entries_ne_nil {peers : List Peer} (h : peers ≠ []) (sel : RandomTransportSelector)
    (count : Int) : sel.fresh (entries peers count) ≠ [] := by
  rw [← List.length_pos_iff, length_fresh, List.length_pos_iff]
  exact entries_ne_nil h count

theorem init_clients_ne_nil {peers : List Peer} (h : peers ≠ []) (count : Int) :
    (new.init peers count).clients ≠ [] := by
  rw [init_clients]
  exact List.append_ne_nil_of_right_ne_nil _ (fresh_entries_ne_nil h new count)

/-- `select` lends one client out of the list, and keeps the others. -/
theorem perm_of_select (h : sel.select seed = .ok (client, sel')) :
    sel.clients.Perm (client :: sel'.clients) ∧ sel'.allocated = sel.allocated := by
  unfold select at h
  split at h
  · cases h
  split at h
  · cases h
  · rename_i i _ _ hi
    cases h
    obtain ⟨hlt, rfl⟩ := List.getElem?_eq_some_iff.mp hi
    exact ⟨(List.getElem_cons_eraseIdx_perm hlt).symm, rfl⟩

/-- `select` throws exactly when the list is empty. -/
theorem select_error_iff (sel : RandomTransportSelector) (seed : Nat) :
    (∃ e, sel.select seed = .error e) ↔ sel.clients = [] := by
  unfold select nextInt
  by_cases hl : sel.clients.length = 0
  · simp [List.length_eq_zero_iff.mp hl]
  · have hlt := Nat.mod_lt seed (Nat.pos_of_ne_zero hl)
    have hne : sel.clients ≠ [] := fun he => hl (by rw [he]; rfl)
    simp [hl, hne, List.getElem?_eq_getElem hlt]

/-- What `select` throws is a runtime exception. -/
theorem isIOException_of_select_error {e : Throwable} (h : sel.select seed = .error e) :
    e.isIOException = false := by
  by_cases hl : sel.clients.length = 0
  · simp only [select, nextInt, hl, if_true] at h
    cases h
    rfl
  · have hlt := Nat.mod_lt seed (Nat.pos_of_ne_zero hl)
    simp [select, nextInt, hl, List.getElem?_eq_getElem hlt] at h

theorem exists_select (h : sel.clients ≠ []) (seed : Nat) :
    ∃ client sel', sel.select seed = .ok (client, sel') := by
  cases hs : sel.select seed with
  | error e => exact absurd ((select_error_iff sel seed).mp ⟨e, hs⟩) h
  | ok r => exact ⟨r.1, r.2, rfl⟩

end RandomTransportSelector

end SpringDemo.Rpc
