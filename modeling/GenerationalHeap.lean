import GenerationalHeap.Collector.Finalizers
import GenerationalHeap.Collector.Graph
import GenerationalHeap.Collector.Overview
import GenerationalHeap.Proofs.Finalizing
import GenerationalHeap.Proofs.Occupation
import GenerationalHeap.Proofs.Balance
import GenerationalHeap.Proofs.Naming
import GenerationalHeap.Proofs.Succession
import GenerationalHeap.Proofs.Placing
import GenerationalHeap.Proofs.Absorbing
import GenerationalHeap.Proofs.Lasting
import GenerationalHeap.Proofs.Ageing
import GenerationalHeap.Proofs.Commuting
import GenerationalHeap.Proofs.MarkOrder
import GenerationalHeap.Proofs.Listing
import GenerationalHeap.Proofs.LargeHistory
import GenerationalHeap.Proofs.Arranging
import GenerationalHeap.Proofs.Climbing
import GenerationalHeap.Proofs.Fragmentation
import GenerationalHeap.Proofs.Queueing
import GenerationalHeap.Proofs.Fields
import GenerationalHeap.Proofs.Newborn
import GenerationalHeap.Proofs.Draining
import GenerationalHeap.Proofs.Percentiles
import GenerationalHeap.Proofs.DataWrites
import GenerationalHeap.Proofs.EventTrace
import GenerationalHeap.Proofs.Gauge
import GenerationalHeap.Proofs.Descriptors
import GenerationalHeap.Proofs.Terminating
import GenerationalHeap.Proofs.Starts
import GenerationalHeap.Proofs.MarkWord
