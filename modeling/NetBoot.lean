import NetBoot.Text.Blank
import NetBoot.Text.Split
import NetBoot.Text.Decimal
import NetBoot.Text.LowerCase
import NetBoot.Text.Digit
import NetBoot.Text.Utf8
import NetBoot.Text.Hex
import NetBoot.Net.Ipv4
import NetBoot.Net.HardwareAddress
import NetBoot.Packet.Kind
import NetBoot.Packet.ClientArch
import NetBoot.Packet.Options
import NetBoot.Packet.Message
import NetBoot.Packet.Triple
import NetBoot.Packet.Error
import NetBoot.Packet.OptionValue
import NetBoot.Packet.Decode
import NetBoot.Packet.Encode
import NetBoot.Time.Calendar
import NetBoot.Time.Instant
import NetBoot.Time.Timestamp
import NetBoot.Boot.Rules
import NetBoot.Boot.Ack
import NetBoot.Storage.Volume
import NetBoot.Settings
import NetBoot.Boot.Services
import NetBoot.Boot.Decision
import NetBoot.Boot.Responder
import NetBoot.Lease.Line
import NetBoot.Lease.Block
import NetBoot.Lease.Tail
import NetBoot.Lease.Poller
import NetBoot.Registry.Row
import NetBoot.Registry.Table
import NetBoot.Registry.Store
import NetBoot.Registry.Session
import NetBoot.CommandLine
import NetBoot.Main
import NetBoot.Proofs.Text.Pieces
import NetBoot.Proofs.Text.HexRoundTrip
import NetBoot.Proofs.Text.Utf8RoundTrip
import NetBoot.Proofs.Packet.Layout
import NetBoot.Proofs.Packet.Grammar
import NetBoot.Proofs.Packet.ValueMeaning
import NetBoot.Proofs.Packet.Encoding
import NetBoot.Proofs.Packet.RoundTrip
import NetBoot.Proofs.Boot.Reply
import NetBoot.Proofs.Lease.Blocks
import NetBoot.Proofs.Lease.Tailing
import NetBoot.Proofs.Boot.Agreement
import NetBoot.Proofs.Packet.WireForm
import NetBoot.Proofs.Text.Lowering
import NetBoot.Proofs.Net.AddressText
import NetBoot.Proofs.Time.CalendarRoundTrip
import NetBoot.Proofs.Time.TimestampRoundTrip
import NetBoot.Proofs.Registry.RowRoundTrip
import NetBoot.Proofs.Registry.Announcing
import NetBoot.Proofs.Registry.TableRoundTrip
import NetBoot.Proofs.Storage.FolderTree
import NetBoot.Proofs.Registry.Recording
import NetBoot.Proofs.Lease.HardwareText
import NetBoot.Proofs.Registry.History
import NetBoot.Proofs.Registry.Holders
import NetBoot.Proofs.Boot.Outcome
import NetBoot.Proofs.Packet.Normalisation
import NetBoot.Proofs.Registry.Verdict
import NetBoot.Proofs.Registry.Readability
import NetBoot.Proofs.Packet.Complaints
import NetBoot.Proofs.Packet.Rewriting
import NetBoot.Proofs.Text.Scanning
import NetBoot.Proofs.Lease.LineForms
import NetBoot.Proofs.Text.LastLine
import NetBoot.Proofs.Time.ClockOrder
import NetBoot.Proofs.Time.DayCount
import NetBoot.Proofs.Lease.EndDates
import NetBoot.Proofs.Lease.BlockMeaning
import NetBoot.Proofs.Lease.ReadBoundaries
import NetBoot.Proofs.Lease.Expiry
import NetBoot.Proofs.Boot.Leftovers
import NetBoot.Proofs.Registry.Effect
import NetBoot.Proofs.Registry.Owners
import NetBoot.Proofs.Boot.RuleTable
import NetBoot.Proofs.Boot.ReplySize
import NetBoot.Proofs.Settings.ValueTexts
import NetBoot.Proofs.Settings.Assignments
import NetBoot.Proofs.Settings.Layers
import NetBoot.Proofs.Packet.Reordering
import NetBoot.Proofs.Packet.Indices
import NetBoot.Proofs.Packet.FirstFault
import NetBoot.Proofs.Registry.OneRow
import NetBoot.Proofs.Storage.Walks
import NetBoot.Proofs.Registry.OfferedProfiles
import NetBoot.Proofs.Net.AddressCodec
import NetBoot.Proofs.Text.Places
import NetBoot.Proofs.Packet.VendorClass
