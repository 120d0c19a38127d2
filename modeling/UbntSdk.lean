import UbntSdk.Lib.Bytes
import UbntSdk.Lib.Crc
import UbntSdk.Lib.Loop
import UbntSdk.Lib.HashTable
import UbntSdk.Firmware.Image
import UbntSdk.Firmware.Split
import UbntSdk.Firmware.ImageTheorems
import UbntSdk.Firmware.RoundTrip
import UbntSdk.Firmware.SplitTheorems
import UbntSdk.Nvram.Store
import UbntSdk.Nvram.StoreTheorems
import UbntSdk.Nvram.Flash
import UbntSdk.Nvram.FlashTheorems
import UbntSdk.Nvram.MapTheorems
import UbntSdk.Nvram.CommitTheorems
import UbntSdk.Wrr.Sched
import UbntSdk.Wrr.QlenTheorems
import UbntSdk.Mtd.Jffs2
import UbntSdk.Mtd.Jffs2Theorems
import UbntSdk.Mtd.Jffs2ReadBack
import UbntSdk.Mtd.Write
import UbntSdk.Mtd.WriteTheorems
import UbntSdk.Mtd.Fis
import UbntSdk.Mtd.FisTheorems
import UbntSdk.Wrr.DequeueTheorems
import UbntSdk.Arpnat.Table
import UbntSdk.Arpnat.TableTheorems
import UbntSdk.Arpnat.Frame
import UbntSdk.Arpnat.FrameTheorems
import UbntSdk.Arpnat.Traffic
import UbntSdk.Arpnat.OwnerTheorems
import UbntSdk.Arpnat.RoundTrip
import UbntSdk.Arpnat.Discovery
import UbntSdk.Lib.Memory
import UbntSdk.Wprobe.Filter
import UbntSdk.Lib.Paging
import UbntSdk.Wprobe.Dump
import UbntSdk.Wprobe.FilterTheorems
import UbntSdk.Wprobe.DumpTheorems
import UbntSdk.Wprobe.QueryTheorems
import UbntSdk.Wprobe.Config
import UbntSdk.Lib.Netlink
import UbntSdk.Wprobe.ConfigTheorems
import UbntSdk.Wprobe.Message
import UbntSdk.Wprobe.Remote
import UbntSdk.Wprobe.SwapTheorems
import UbntSdk.Wprobe.RemoteTheorems
import UbntSdk.Wprobe.ScaleTheorems
import UbntSdk.Lib.Checksum
import UbntSdk.Ivi.HeaderTheorems
import UbntSdk.Ivi.Mapping
import UbntSdk.Ivi.PayloadTheorems
import UbntSdk.Ivi.Icmp4to6Theorems
import UbntSdk.Ivi.Icmp6to4Theorems
import UbntSdk.Ivi.MappingTheorems
import UbntSdk.Ivi.BoundsTheorems
import UbntSdk.Ivi.Datagram
import UbntSdk.Ivi.FragmentTheorems
import UbntSdk.Ivi.TransportTheorems
import UbntSdk.Ivi.LeakTheorems
import UbntSdk.Ivi.Leak6to4Theorems
import UbntSdk.Web.Config
import UbntSdk.Lib.Updates
import UbntSdk.Web.AssignTheorems
import UbntSdk.Web.TextTheorems
import UbntSdk.Web.OrderTheorems
import UbntSdk.Web.PrintTheorems
import UbntSdk.Web.RoundTripTheorems
import UbntSdk.Ivi.AddressTheorems
import UbntSdk.Wrr.TrafficTheorems
import UbntSdk.Wrr.ShareTheorems
import UbntSdk.Images.Srec
import UbntSdk.Images.SrecTheorems
import UbntSdk.Images.Mylofw
import UbntSdk.Images.MylofwTheorems
import UbntSdk.Images.Zynfw
import UbntSdk.Images.Trx
import UbntSdk.Images.TrxTheorems
import UbntSdk.Images.ZynfwTheorems
import UbntSdk.Firmware.BuildTheorems
import UbntSdk.Firmware.WalkTheorems
import UbntSdk.Images.Fwimage
import UbntSdk.Nvram.Cli
import UbntSdk.Nvram.LayoutTheorems
import UbntSdk.Nvram.CliTheorems
import UbntSdk.Mtd.IdentityTheorems
import UbntSdk.Images.Csysimg
import UbntSdk.Images.CsysimgTheorems
import UbntSdk.Images.CsysimgLayout
import UbntSdk.Mtd.ScanTheorems
import UbntSdk.Mtd.Trx
import UbntSdk.Mtd.TrxTheorems
import UbntSdk.Wrr.TableTheorems
import UbntSdk.Ivi.LengthTheorems
import UbntSdk.Arpnat.Tags
import UbntSdk.Ivi.PathMtuTheorems
import UbntSdk.Ivi.Skb
import UbntSdk.Arpnat.HostUniq
import UbntSdk.Arpnat.Bootp
import UbntSdk.Arpnat.BootpTheorems
import UbntSdk.Lib.Scan
import UbntSdk.Firmware.Layout
import UbntSdk.Firmware.LayoutTheorems
import UbntSdk.Firmware.PrefixTheorems
import UbntSdk.Web.Network
import UbntSdk.Lib.FreeList
import UbntSdk.Web.InterfaceTheorems
import UbntSdk.Web.RuleTheorems
import UbntSdk.Wprobe.Frame
import UbntSdk.Wprobe.FrameTheorems
import UbntSdk.Wprobe.DurationTheorems
import UbntSdk.Lib.Locking
import UbntSdk.Wprobe.Lock
import UbntSdk.Arpnat.Listing
import UbntSdk.Wprobe.LockTheorems
import UbntSdk.Arpnat.ArpTheorems
import UbntSdk.Arpnat.ListingTheorems
import UbntSdk.Lib.Keyed
import UbntSdk.Wprobe.Client
import UbntSdk.Wprobe.ReceiveTheorems
import UbntSdk.Wprobe.ClientTheorems
import UbntSdk.Web.Relay
import UbntSdk.Web.RelayTheorems
import UbntSdk.Wprobe.FilterFile
import UbntSdk.Lib.InPlace
import UbntSdk.Wprobe.FilterFileTheorems
import UbntSdk.Scripts.Metadata
import UbntSdk.Scripts.Feeds
import UbntSdk.Scripts.MetadataTheorems
import UbntSdk.Lib.JsNumber
import UbntSdk.Web.Slink
import UbntSdk.Web.SlinkTheorems
import UbntSdk.Images.MylofwOptions
import UbntSdk.Images.MylofwOptionTheorems
import UbntSdk.Lib.JsText
import UbntSdk.Lib.Regex
import UbntSdk.Web.Validate
import UbntSdk.Web.ValidateTheorems
import UbntSdk.Web.Firewall
import UbntSdk.Web.FieldTheorems
import UbntSdk.Web.CommandTheorems
import UbntSdk.Lib.Capping
import UbntSdk.Web.Mtu
import UbntSdk.Web.MtuTheorems
import UbntSdk.Web.IpMode
import UbntSdk.Web.IpModeTheorems
import UbntSdk.Web.MgmtVlan
import UbntSdk.Web.MgmtVlanTheorems
import UbntSdk.Images.ZynfwSumTheorems
import UbntSdk.Images.Casfw
import UbntSdk.Images.CasfwTheorems
import UbntSdk.Images.Ptgen
import UbntSdk.Images.PtgenTheorems
import UbntSdk.Images.Lzma2eva
import UbntSdk.Images.Lzma2evaTheorems
import UbntSdk.Switch.Vlan
import UbntSdk.Switch.VlanTheorems
import UbntSdk.Lib.Pass
import UbntSdk.Qos.Tcrules
import UbntSdk.Qos.TcrulesTheorems
import UbntSdk.Images.ChunkTheorems
import UbntSdk.Lib.Dfs
import UbntSdk.Scripts.Menu
import UbntSdk.Lib.KeyOrder
import UbntSdk.Scripts.MenuTheorems
import UbntSdk.Scripts.Kconfig
import UbntSdk.Scripts.KconfigTheorems
import UbntSdk.Lib.Writers
import UbntSdk.Scripts.Overrides
import UbntSdk.Scripts.OverridesTheorems
import UbntSdk.Scripts.FeedsTheorems
