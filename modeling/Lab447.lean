import Lab447.MemTable.Live
import Lab447.Pe.Conserve
import Lab447.Generator.Grid
import Lab447.Ruby.Delivery
import Lab447.Ruby.Banks
import Lab447.EventQ.Order
import Lab447.MemCtrl.Conserve
import Lab447.Dram.Bandwidth
import Lab447.Dram.Decode
import Lab447.Dram.Safety
import Lab447.Classic.Retry
import Lab447.Classic.MshrQueue
import Lab447.Classic.Misses
import Lab447.Classic.Layer
import Lab447.Classic.PacketQueue
import Lab447.Classic.Coherent
import Lab447.MemTable.Place
import Lab447.Dse.Fuse
import Lab447.Dse.Fitness
import Lab447.Dse.Split
import Lab447.Dse.Report
import Lab447.Base.Interleave
import Lab447.Ruby.Requests
import Lab447.Ruby.CacheArray
import Lab447.Ruby.Slots
import Lab447.Generator.Batchnorm
import Lab447.Generator.Fused
import Lab447.Garnet.Multicast
import Lab447.Garnet.Topology
