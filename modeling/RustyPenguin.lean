import RustyPenguin.Browser.Pages
import RustyPenguin.Browser.Urls
import RustyPenguin.Crypto.Digests
import RustyPenguin.Crypto.Hkdf
import RustyPenguin.Crypto.P256.Field
import RustyPenguin.Crypto.P256.Group
import RustyPenguin.Crypto.P256.Order
import RustyPenguin.Crypto.Poly1305.Tag
import RustyPenguin.Crypto.X25519.Refinement
import RustyPenguin.Editor.Cursor
import RustyPenguin.Editor.Nano
import RustyPenguin.Editor.Typing
import RustyPenguin.Elf.Failures
import RustyPenguin.Elf.Readers
import RustyPenguin.Files.Persist
import RustyPenguin.Foundation.Balanced
import RustyPenguin.Foundation.Signed
import RustyPenguin.Heap.Reclaim
import RustyPenguin.Input.Delivery
import RustyPenguin.Linux.Arena
import RustyPenguin.Linux.Break
import RustyPenguin.Linux.Files
import RustyPenguin.Net.Lease
import RustyPenguin.Net.Sending
import RustyPenguin.Pkg.Authentic
import RustyPenguin.Pkg.Lossy
import RustyPenguin.Ramfs.Archive
import RustyPenguin.Ramfs.Listing
import RustyPenguin.Ramfs.Newc
import RustyPenguin.Rpfs.Creation
import RustyPenguin.Rpfs.Mount
import RustyPenguin.Sched.Slots
import RustyPenguin.Term.Calculator
import RustyPenguin.Term.Expressions
import RustyPenguin.Term.Sessions
import RustyPenguin.Ternary.Inference
import RustyPenguin.Ternary.Printing
import RustyPenguin.Ternary.Words
import RustyPenguin.Tjs.Lexical
import RustyPenguin.Tls.Protection
import RustyPenguin.Tls.Response
import RustyPenguin.Usb.InStep
import RustyPenguin.Video.Playback
import RustyPenguin.Vmm.Contiguous
import RustyPenguin.Vmm.Isolation
import RustyPenguin.Wpa2.Answers
import RustyPenguin.Wpa2.Replay
import RustyPenguin.X509.Impersonation
import RustyPenguin.X509.Pkcs1
import RustyPenguin.Css.Colors
import RustyPenguin.X509.Hosts
import RustyPenguin.Wifi.Firmware
import RustyPenguin.Heap.FirstFit
import RustyPenguin.Rpfs.Geometry
import RustyPenguin.Acpi.Tables
import RustyPenguin.Acpi.Walks
import RustyPenguin.Pkg.Lookup
