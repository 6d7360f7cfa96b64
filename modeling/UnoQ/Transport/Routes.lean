import Std.Data.String.ToNat
import UnoQ.Lib.Separated
import UnoQ.Transport.Descriptor

/-!
# Descriptors by their routing fields

The key of a descriptor determines where it connects to. The fields of a key are not escaped: the
port is free of every separator, and for a reverse-SSH listener the address is free of the slash.
-/

namespace UnoQ.Transport
open Separated

/-- What a descriptor connects to, certificate material left out. -/
inductive Route
  | unix (path : String)
  | tcp (host : String) (port : ℕ)
  | tls (host : String) (port : ℕ)
  | ssh (listenAddress : String) (listenPort : ℕ) (deviceNick : String)
  deriving DecidableEq

def TransportDescriptor.route : TransportDescriptor → Route
  | .unix path => .unix path
  | .tcp host port => .tcp host port
  | .tls host port _ _ _ => .tls host port
  | .ssh listenAddress listenPort deviceNick => .ssh listenAddress listenPort deviceNick

/-- No address that a listener can bind to has a slash in it. -/
def TransportDescriptor.Bindable : TransportDescriptor → Prop
  | .ssh listenAddress _ _ => '/' ∉ listenAddress.toList
  | _ => True

instance (d : TransportDescriptor) : Decidable d.Bindable := by
  cases d <;> dsimp only [TransportDescriptor.Bindable] <;> infer_instance

/-! ### Ports -/

theorem port_free {c : Char} (hc : c.isDigit = false) (port : ℕ) : c ∉ (toString port).toList := by
  intro hmem
  rw [Nat.toString_eq_repr, Nat.toList_repr] at hmem
  have hdigit := Nat.isDigit_of_mem_toDigits (by decide) (by decide) hmem
  rw [hc] at hdigit
  contradiction

theorem port_inj {p q : ℕ} (h : (toString p).toList = (toString q).toList) : p = q := by
  rw [String.toList_inj, Nat.toString_eq_repr, Nat.toString_eq_repr] at h
  exact Nat.repr_injective h

theorem hostPort_inj {host host' : List Char} {port port' : ℕ}
    (h : host ++ ':' :: (toString port).toList = host' ++ ':' :: (toString port').toList) :
    host = host' ∧ port = port' := by
  obtain ⟨hhost, hport⟩ := last_inj (port_free (by decide) port) (port_free (by decide) port') h
  exact ⟨hhost, port_inj hport⟩

/-! ### Keys -/

def TransportDescriptor.scheme : TransportDescriptor → List Char
  | .unix _ => "unix".toList
  | .tcp _ _ => "tcp".toList
  | .tls .. => "tls".toList
  | .ssh .. => "ssh".toList

/-- What follows the scheme in a key. -/
def TransportDescriptor.address : TransportDescriptor → List Char
  | .unix path => path.toList
  | .tcp host port => host.toList ++ ':' :: (toString port).toList
  | .tls host port _ _ _ => host.toList ++ ':' :: (toString port).toList
  | .ssh listenAddress listenPort deviceNick =>
    (listenAddress.toList ++ ':' :: (toString listenPort).toList) ++ '/' :: deviceNick.toList

theorem describeTransport_toList (d : TransportDescriptor) :
    (describeTransport d).toList = d.scheme ++ ':' :: d.address := by
  cases d <;>
    simp [describeTransport, TransportDescriptor.scheme, TransportDescriptor.address]

theorem scheme_free (d : TransportDescriptor) : ':' ∉ d.scheme := by
  cases d <;> exact of_decide_eq_false rfl

theorem listener_inj {address address' nick nick' : List Char} {port port' : ℕ}
    (ha : '/' ∉ address) (ha' : '/' ∉ address')
    (h : (address ++ ':' :: (toString port).toList) ++ '/' :: nick =
      (address' ++ ':' :: (toString port').toList) ++ '/' :: nick') :
    address = address' ∧ port = port' ∧ nick = nick' := by
  have hfree : ∀ (a : List Char) (p : ℕ), '/' ∉ a → '/' ∉ a ++ ':' :: (toString p).toList := by
    intro a p hfree hmem
    rcases List.mem_append.mp hmem with hmem | hmem
    · exact hfree hmem
    · rcases List.mem_cons.mp hmem with hcolon | hport
      · exact absurd hcolon (by decide)
      · exact port_free (by decide) p hport
  obtain ⟨hlisten, hnick⟩ := first_inj (hfree _ port ha) (hfree _ port' ha') h
  obtain ⟨haddress, hport⟩ := hostPort_inj hlisten
  exact ⟨haddress, hport, hnick⟩

/-- Descriptors with one key have one route: the scheme ends at the first colon, a host at the last
one, and a listener's address and port at the first slash. -/
theorem route_inj {d d' : TransportDescriptor} (hd : d.Bindable) (hd' : d'.Bindable)
    (h : describeTransport d = describeTransport d') : d.route = d'.route := by
  have hlist := congrArg String.toList h
  rw [describeTransport_toList, describeTransport_toList] at hlist
  obtain ⟨hscheme, haddress⟩ := first_inj (scheme_free d) (scheme_free d') hlist
  cases d with
  | unix path =>
    cases d' with
    | unix path' => exact congrArg Route.unix (String.toList_inj.mp haddress)
    | _ => exact absurd hscheme (of_decide_eq_false rfl)
  | tcp host port =>
    cases d' with
    | tcp host' port' =>
      obtain ⟨hhost, hport⟩ := hostPort_inj haddress
      exact congrArg₂ Route.tcp (String.toList_inj.mp hhost) hport
    | _ => exact absurd hscheme (of_decide_eq_false rfl)
  | tls host port ca cert key =>
    cases d' with
    | tls host' port' ca' cert' key' =>
      obtain ⟨hhost, hport⟩ := hostPort_inj haddress
      exact congrArg₂ Route.tls (String.toList_inj.mp hhost) hport
    | _ => exact absurd hscheme (of_decide_eq_false rfl)
  | ssh address port nick =>
    cases d' with
    | ssh address' port' nick' =>
      obtain ⟨ha, hp, hn⟩ := listener_inj hd hd' haddress
      change Route.ssh address port nick = Route.ssh address' port' nick'
      rw [String.toList_inj.mp ha, hp, String.toList_inj.mp hn]
    | _ => exact absurd hscheme (of_decide_eq_false rfl)

end UnoQ.Transport
